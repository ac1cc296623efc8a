import DocQuery.Proofs.Build.Progress

namespace DocQuery

/-! # Building admitted conditions

A run that builds admitted conditions at a table of their model comes to what the conditions say:
the draft grows by their sub-queries, their relations come in, and the result is their tree. The
proof is one induction over conditions, documents and targets, which follows the recursion of
`build`.

* `build_builds`: what a run that builds an admitted condition comes to.
* `runs_derivedJoin_iff`: a derived join builds its sub-query apart, ties it to its parent and
  embeds it.
-/

open Build Draft

variable {s : Schema}

namespace Condition

variable {d e : Draft s} {table : TablePath} {m : Model s}

/-! ## Steps without nested conditions -/

/-- Columns are joined and values bound. -/
theorem builds_test (h : d.Ready table m) {columns : List (Column s)}
    (hreached : ∀ c ∈ columns, c.LeadsToColumn m) (values : List Operand)
    (combine : List QualifiedColumn → List String → Predicate Test)
    {qualified : List QualifiedColumn} (hrun : (joinColumns table columns).Runs d qualified e) :
    Builds table [] (columns.flatMap fun c => c.model.entered c.path) (·.bind values.length)
      (fun v p => some (combine (v.qualify table columns) (v.nextParams p values.length))) d
      (some (combine qualified (e.bindAll values).1)) (e.bindAll values).2 := by
  have hcolumns := builds_joinColumns h hreached hrun
  have hvalues := builds_bindAll table (h.grow hcolumns.grows).tidy values
  exact (hcolumns.bind (fun columns params => some (combine columns params)) h.tidy hvalues).congr
    (List.append_nil _) (fun _ _ => rfl) (fun _ _ _ => rfl)

/-- Ordering joins the tables of the columns and adds an entry for each. -/
theorem builds_orderBy (h : d.Ready table m) {entries : List (Column s × Direction)}
    (hreached : ∀ e ∈ entries, e.1.LeadsToColumn m) {u : Unit}
    (hrun : (orderBy table entries).Runs d u e) :
    Builds table [] (entries.flatMap fun e => e.1.model.entered e.1.path) id (fun _ _ => ()) d u e := by
  induction entries generalizing d with
  | nil =>
    rw [orderBy, runs_pure] at hrun
    rcases hrun with ⟨rfl, rfl⟩
    exact .refl table d ()
  | cons entry entries ih =>
    rcases entry with ⟨column, direction⟩
    rcases runs_orderBy_cons_iff.1 hrun with ⟨_, d₁, hcolumn, hrest⟩
    rcases hreached (column, direction) List.mem_cons_self with ⟨rfl, n, name, hopen, hname, _⟩
    rcases h.tidy.runs_joinColumn rfl hopen h.mem h.typed hcolumn with ⟨rfl, hfollow⟩
    have hjoin := Builds.of_joins hfollow.joins hfollow.spreads ()
    have hready := h.grow hjoin.grows
    rcases hready.tidy.named _ hfollow.mem with ⟨a, ha⟩
    -- the table of the column is joined, so its alias is there
    have horder : Grows [] d₁ (d₁.addOrder (table.join column.path) (column.name.getD "") direction) :=
      .clause (.order hfollow.mem ha _ _)
    have hstep : Builds table [] [] id (fun _ _ => ()) d₁ () _ :=
      .of_sameTables horder (sameTables_addOrder ha _ _) (lastParam_addOrder ha _ _) ()
    have htail := ih (hready.grow horder) (fun e he => hreached e (List.mem_cons_of_mem _ he)) hrest
    have hhead := hjoin.bind (fun _ u => u) h.tidy hstep
    exact (hhead.bind (fun _ u => u) h.tidy htail).congr (by simp) (fun _ _ => rfl)
      (fun _ _ _ => rfl)

/-- Including relations leaves the tables alone. -/
theorem builds_addIncludes (paths : List TablePath) (d : Draft s) :
    Grows [] d (paths.foldl addInclude d) ∧ SameTables d (paths.foldl addInclude d) ∧
      (paths.foldl addInclude d).lastParam = d.lastParam := by
  induction paths generalizing d with
  | nil => exact ⟨.refl d, rfl, rfl⟩
  | cons path paths ih =>
    rcases ih (d.addInclude path) with ⟨hgrows, hsame, hparam⟩
    exact ⟨.trans (.clause (.load _)) hgrows, (sameTables_addInclude d _).trans hsame,
      hparam.trans (lastParam_addInclude d _)⟩

theorem builds_includeRelation (table : TablePath) {column : Column s} {u : Unit}
    (hrun : (includeRelation table column).Runs d u e) :
    Builds table [] [] id (fun _ _ => ()) d u e := by
  rcases runs_includeRelation_iff.1 hrun with ⟨_, rfl⟩
  rcases builds_addIncludes _ d with ⟨hgrows, hsame, hparam⟩
  exact .of_sameTables hgrows hsame hparam u

/-! ## Relations and sub-queries -/

/-- A column is followed to rows, at whose table conditions can be built. -/
theorem builds_joinRelation (h : d.Ready table m) {c : Column s} {n : Model s}
    (hrows : c.LeadsToRows m n) {reached : TablePath}
    (hrun : (joinRelation table c).Runs d reached e) :
    reached = table.join c.segments ∧ e.Ready (table.join c.segments) n ∧
      Builds table [] (c.model.entered c.segments) id (fun _ _ => ()) d () e := by
  rcases runs_joinRelation h.tidy hrows h.mem h.typed hrun with ⟨rfl, hfollow⟩
  have hmodel : c.model = m := by
    rcases hrows with ⟨⟨hmodel, _⟩, _⟩ | ⟨_, ⟨hmodel, _⟩, _⟩
    · exact hmodel
    · exact hmodel
  refine ⟨rfl, ⟨hfollow.joins.tidy h.tidy, hfollow.mem, hfollow.typed⟩, ?_⟩
  rw [hmodel]
  exact .of_joins hfollow.joins hfollow.spreads ()

/-- Selecting a column joins its table. -/
theorem builds_selectColumn (h : d.Ready table m) {c : Column s} (hc : c.LeadsToColumn m)
    {path : TablePath} (hrun : (joinColumn table c).Runs d path e) :
    Builds table [] (c.model.entered c.path) id (fun _ _ => (none : Option (Predicate Test))) d none
      ((e.columnAt path (c.name.getD "")).2.addSelect
        (.column (e.columnAt path (c.name.getD "")).1)) := by
  rcases hc with ⟨rfl, n, name, hopen, hname, _⟩
  rcases h.tidy.runs_joinColumn rfl hopen h.mem h.typed hrun with ⟨rfl, hfollow⟩
  have hjoin := Builds.of_joins hfollow.joins hfollow.spreads ()
  rcases (h.grow hjoin.grows).tidy.columnAt_joined hfollow.mem (c.name.getD "") with
      ⟨a, ha, hcolumn⟩
  rw [hcolumn]
  -- the column is entered once the path to it has been joined
  have hselect : Builds table [] [] id (fun _ _ => (none : Option (Predicate Test))) e none
      (e.addSelect (.column ⟨a, c.name.getD ""⟩)) :=
    .of_sameTables (.clause (.select hfollow.mem ha _)) (sameTables_addSelect e _)
      (lastParam_addSelect e _) none
  exact (hjoin.bind (fun _ tree => tree) h.tidy hselect).congr (List.append_nil _) (fun _ _ => rfl)
    (fun _ _ _ => rfl)

/-- Only where a path goes nowhere, what is built at its end is built at the table itself. -/
theorem builds_of_join {τ : Type} {path : List String}
    {subqueries : List (Relation s × List (Condition s))} {entered : List String}
    {advance : Progress → Progress} {result : Naming → Progress → τ} {t : τ}
    (h : Builds (table.join path) subqueries entered advance result d t e) :
    Builds table subqueries (if path = [] then entered else []) advance result d t e := by
  by_cases hpath : path = []
  · subst hpath
    rw [TablePath.join_nil] at h
    rw [if_pos rfl]
    exact h
  · rw [if_neg hpath]
    exact h.of_inner (TablePath.isBelow_join table hpath)

theorem lastParam_correlates {a : String} {relation : Relation s} (h : Correlates a relation d e) :
    e.lastParam = d.lastParam := by
  cases h with
  | hasMany named => rfl
  | belongsTo named => rfl
  | @manyToMany _ e' a name joinTable foreignKey associationKey owner target definition named =>
    have hsame : e'.lastParam = d.lastParam := by
      have hsnd := congrArg (fun r => r.2.lastParam) named
      rw [← hsnd]
      -- giving an alias binds nothing
      unfold aliasOf
      split <;> rfl
    exact hsame

/-- A built sub-query is embedded at the first free path of its relation. -/
theorem builds_embed {relation : Relation s} (h : d.Ready table relation.owner)
    (hresolved : relation.Resolved) {a : String} (ha : d.aliasAt? table = some a)
    {subquery : List (Condition s)} {trees : List (Predicate Test)} {built done : Draft s}
    (hbuilt : Builds (.root relation.target.table) (subqueriesOfEach subquery)
      (enteredByEach subquery) (advanceEach subquery (.root relation.target.table))
      (fun v p => treeEach v subquery (.root relation.target.table) p)
      (d.nestedDraft (derivedPath d table relation.name) relation.target) trees built)
    (hcorrelates : Correlates a relation (built.pushWhere (.all trees)) done) :
    Builds table [(relation, subquery)] []
      (fun p => p.claim (advanceEach subquery (.root relation.target.table) p.nested)
        (freePath p.derived table relation.name)) (fun _ _ => ()) d ()
      (d.embed (derivedPath d table relation.name) relation.target done) where
  grows := by
    refine .embed (place_derivedPath h.mem relation.name) h.typed ha hresolved hbuilt.grows
      hbuilt.spreads (fun v hv => ?_) hcorrelates
    exact hbuilt.result_eq v _ (at_nestedDraft d _ _) hv
  spreads := by
    rcases derivedPath_eq_child d table relation.name with ⟨name, hname⟩
    have henters := h.tidy.enters_embed (place_derivedPath h.mem relation.name) relation.target done
    refine ⟨fun path hpath => henters.mem_joined.2 (.inr hpath), fun path hpath => ?_, fun r => ?_⟩
    · rcases henters.mem_joined.1 hpath with rfl | hpath
      · rw [hname]
        exact .inr (TablePath.isBelow_child _ _)
      · exact .inl hpath
    · rw [henters.mem_joined, hname, TablePath.child_inj]
      simp
  progress := by
    intro p hp
    -- the parameters of the sub-query go on where those of the draft end
    have hlast : built.lastParam =
        (advanceEach subquery (.root relation.target.table) p.nested).lastParam := by
      have hat := hbuilt.progress _ (at_nestedDraft d _ _)
      rw [hat.lastParam, hp.lastParam]
      rfl
    have hle : d.lastParam ≤ built.lastParam :=
      (hbuilt.grows.tidy_steady (tidy_withBase _ _ _ _ _)).2.lastParam
    have hdone : done.lastParam = built.lastParam := (lastParam_correlates hcorrelates).trans rfl
    have hpath := hp.derivedPath_eq table relation.name
    refine ⟨?_, fun table' name => ?_⟩
    · show max d.lastParam done.lastParam = _
      rw [hdone, Nat.max_eq_right hle, hlast]
      rfl
    · show _ ∈ derivedPath d table relation.name :: d.joined ↔ _ ∈ _ :: p.derived
      rw [List.mem_cons, List.mem_cons, hp.derived, hpath]
  result_eq := fun _ _ _ _ => rfl

/-! ## Conditions -/

theorem admitted_of_cons {condition : Condition s} {conditions : List (Condition s)}
    (h : ∀ c ∈ condition :: conditions, c.Admitted m) :
    condition.Admitted m ∧ ∀ c ∈ conditions, c.Admitted m :=
  ⟨h condition List.mem_cons_self, fun c hc => h c (List.mem_cons_of_mem _ hc)⟩

/-- A sub-query is built in its draft, tied to the row of its parent and embedded; then the
conditions on its row are built at its path. -/
theorem runs_derivedJoin_iff {column : Column s} {relation : Relation s}
    {subquery conditions : List (Condition s)} {t : Option (Predicate Test)}
    (h : d.Ready table relation.owner) :
    (build (.derivedJoin column relation subquery conditions) table).Runs d t e ↔
      ∃ a trees built done trees', d.aliasAt? table = some a ∧
        (buildEach subquery (.root relation.target.table)).Runs
          (d.nestedDraft (derivedPath d table relation.name) relation.target) trees built ∧
        (correlate relation a).Runs (built.pushWhere (.all trees)) () done ∧
        (buildEach conditions (derivedPath d table relation.name)).Runs
          (d.embed (derivedPath d table relation.name) relation.target done) trees' e ∧
        t = some (.all trees') := by
  rcases h.tidy.aliasOf_joined h.mem with ⟨a, ha, halias⟩
  have hplace := place_derivedPath h.mem relation.name
  have hopen := h.tidy.openNested_eq hplace relation.target
  have hjoined := h.tidy.joinDerived_eq hplace relation.target
  simp only [build, runs_bind, runs_get, runs_modifyGet, runs_modify, runs_within, runs_pure]
  -- the parent's alias is at hand, so a run is the sub-query's, the correlation's and that of the
  -- row's tests
  constructor
  · rintro ⟨_, _, ⟨rfl, rfl⟩, hrun⟩
    simp only [halias] at hrun
    rcases hrun with ⟨_, _, ⟨rfl, rfl⟩, _, _, ⟨rfl, rfl⟩, ⟨_, done⟩, _,
      ⟨⟨trees, built, hsub, _, _, rfl, hcorrelate⟩, rfl⟩, _, _, rfl, _, _, rfl, trees', _, hnested,
      rfl, rfl⟩
    rw [hopen] at hsub hnested
    simp only [hjoined] at hnested
    exact ⟨a, trees, built, done, trees', ha, hsub, hcorrelate, hnested, rfl⟩
  · rintro ⟨a', trees, built, done, trees', ha', hsub, hcorrelate, hnested, rfl⟩
    rw [ha] at ha'
    cases ha'
    refine ⟨_, _, ⟨rfl, rfl⟩, ?_⟩
    simp only [halias]
    refine ⟨_, _, ⟨rfl, rfl⟩, _, _, ⟨rfl, rfl⟩, ((), done), _,
      ⟨⟨trees, built, ?_, (), _, rfl, hcorrelate⟩, rfl⟩, (), _, rfl, (), _, rfl, trees', e, ?_, rfl,
      rfl⟩
    · rw [hopen]
      exact hsub
    · rw [hopen]
      simp only [hjoined]
      exact hnested

/-- A derived table is joined at the first free path of its relation, and the conditions on its row
are built there. -/
theorem derivedJoin_builds {column : Column s} {relation : Relation s}
    {subquery conditions : List (Condition s)} {t : Option (Predicate Test)}
    (h : d.Ready table relation.owner) (hresolved : relation.Resolved)
    (hsubquery : ∀ {d e : Draft s} {trees : List (Predicate Test)},
      d.Ready (.root relation.target.table) relation.target →
      (buildEach subquery (.root relation.target.table)).Runs d trees e →
      Builds (.root relation.target.table) (subqueriesOfEach subquery) (enteredByEach subquery)
        (advanceEach subquery (.root relation.target.table))
        (fun v p => treeEach v subquery (.root relation.target.table) p) d trees e)
    (hconditions : ∀ {path : TablePath} {d e : Draft s} {trees : List (Predicate Test)},
      d.Ready path relation.target → (buildEach conditions path).Runs d trees e →
      Builds path (subqueriesOfEach conditions) (enteredByEach conditions)
        (advanceEach conditions path) (fun v p => treeEach v conditions path p) d trees e)
    (hrun : (build (.derivedJoin column relation subquery conditions) table).Runs d t e) :
    Builds table (subqueries (.derivedJoin column relation subquery conditions))
      (entered (.derivedJoin column relation subquery conditions))
      (advance (.derivedJoin column relation subquery conditions) table)
      (fun v p => tree v (.derivedJoin column relation subquery conditions) table p) d t e := by
  rcases (runs_derivedJoin_iff h).1 hrun with
      ⟨a, trees, built, done, trees', ha, hsub, hcorrelate, hnested, rfl⟩
  -- the sub-query, in a draft of its own
  have hsubReady : (d.nestedDraft (derivedPath d table relation.name) relation.target).Ready
      (.root relation.target.table) relation.target :=
    ready_withBase relation.target _ _ _ _
  have hbuilt := hsubquery hsubReady hsub
  have hcorrelates : Correlates a relation (built.pushWhere (.all trees)) done :=
    ((hbuilt.tidy hsubReady.tidy).withPredicate _).runs_correlate hcorrelate
  have hembed := builds_embed h hresolved ha hbuilt hcorrelates
  -- the conditions on its row, at the path of the derived table
  have hrows := hconditions (h.embed relation.name relation.target done) hnested
  rcases derivedPath_eq_child d table relation.name with ⟨name, hname⟩
  have hbelow : (derivedPath d table relation.name).IsBelow table :=
    hname ▸ TablePath.isBelow_child table _
  refine (hembed.bind (fun _ trees => some (Predicate.all trees)) h.tidy
    (hrows.of_inner hbelow)).congr rfl (fun p hp => ?_) (fun v p hp => ?_)
  · rw [hp.derivedPath_eq]
    rfl
  · rw [hp.derivedPath_eq]
    rfl

mutual

/-- An admitted condition is built as it says. -/
theorem build_builds (c : Condition s) {m : Model s} {table : TablePath} {d e : Draft s}
    {t : Option (Predicate Test)} (hc : c.Admitted m) (h : d.Ready table m)
    (hrun : (build c table).Runs d t e) :
    Builds table c.subqueries c.entered (c.advance table) (fun v p => c.tree v table p) d t e := by
  cases c with
  | comparison rule template columns values =>
    cases hc with
    | comparison reached =>
      rcases runs_comparison_iff.1 hrun with ⟨_, _, hcolumns, rfl, rfl⟩
      exact builds_test h reached values (comparisonTree template) hcolumns
  | presence rule template columns =>
    cases hc with
    | presence reached =>
      rcases runs_presence_iff.1 hrun with ⟨_, hcolumns, rfl⟩
      exact builds_test h reached [] (fun columns _ => .any (eachColumn template columns [])) hcolumns
  | membership rule template columns values =>
    cases hc with
    | membership reached =>
      rcases runs_membership_iff.1 hrun with ⟨_, _, hcolumns, rfl, rfl⟩
      exact builds_test h reached [values]
        (fun columns params => .all (eachColumn template columns params)) hcolumns
  | range rule template columns low high =>
    cases hc with
    | range reached =>
      rcases runs_range_iff.1 hrun with ⟨_, _, hcolumns, rfl, rfl⟩
      exact builds_test h reached [low, high]
        (fun columns params => .all (eachColumn template columns params)) hcolumns
  | overlap rule template columns span =>
    cases hc with
    | overlap reached =>
      rcases runs_overlap_iff.1 hrun with ⟨_, _, hcolumns, rfl, rfl⟩
      exact builds_test h reached [.instant span.start, .instant span.stop]
        (fun columns params => .any (eachPair template params columns)) hcolumns
  -- the documents of all targets are counted together
  | relationJoin targets =>
    cases hc with
    | relationJoin reached nested =>
      rcases runs_relationJoin_iff.1 hrun with ⟨trees, hjoins, rfl⟩
      exact (buildJoins_builds targets reached nested h hjoins).map fun trees =>
        some (Predicate.node (acrossRelations (documentCount targets)) trees)
  -- the two inductive facts are about the conditions inside and those on the row
  | derivedJoin column relation subquery conditions =>
    cases hc with
    | derivedJoin own direct reached rows nested =>
      rcases reached.resolved_owner own with ⟨hresolved, rfl⟩
      exact derivedJoin_builds h hresolved
        (fun hready hsub => buildEach_builds subquery rows hready hsub)
        (fun hready hconditions => buildEach_builds conditions nested hready hconditions) hrun
  | select targets =>
    cases hc with
    | select reached nested =>
      rcases runs_select_iff.1 hrun with ⟨trees, hselects, rfl⟩
      exact (buildSelects_builds targets reached nested h hselects).map fun trees =>
        if trees.isEmpty then none else some (Predicate.all trees)
  | order entries =>
    cases hc with
    | order reached =>
      rcases runs_order_iff.1 hrun with ⟨_, horder, rfl⟩
      exact (builds_orderBy h reached horder).map fun _ => none
  -- a function sets a clause and joins nothing
  | limit n =>
    rcases runs_clause_iff.1 hrun with ⟨_, rfl, rfl⟩
    exact .of_sameTables (.clause (.limit n)) rfl rfl none
  | offset n =>
    rcases runs_clause_iff.1 hrun with ⟨_, rfl, rfl⟩
    exact .of_sameTables (.clause (.offset n)) rfl rfl none

theorem buildEach_builds (conditions : List (Condition s)) {m : Model s} {table : TablePath}
    {d e : Draft s} {trees : List (Predicate Test)} (hc : ∀ c ∈ conditions, c.Admitted m)
    (h : d.Ready table m) (hrun : (buildEach conditions table).Runs d trees e) :
    Builds table (subqueriesOfEach conditions) (enteredByEach conditions)
      (advanceEach conditions table) (fun v p => treeEach v conditions table p) d trees e := by
  cases conditions with
  | nil =>
    rw [buildEach, runs_pure] at hrun
    rcases hrun with ⟨rfl, rfl⟩
    exact .refl table d []
  | cons condition conditions =>
    rcases runs_buildEach_cons_iff.1 hrun with ⟨tree, _, rest, hfirst, hrest, rfl⟩
    rcases admitted_of_cons hc with ⟨hcondition, hconditions⟩
    have hhead := build_builds condition hcondition h hfirst
    exact hhead.bind (fun tree rest => tree.toList ++ rest) h.tidy
      (buildEach_builds conditions hconditions (h.grow hhead.grows) hrest)

theorem buildDocuments_builds (documents : List (List (Condition s))) {m : Model s}
    {table : TablePath} {d e : Draft s} {trees : List (Predicate Test)}
    (hc : ∀ document ∈ documents, ∀ c ∈ document, c.Admitted m) (h : d.Ready table m)
    (hrun : (buildDocuments documents table).Runs d trees e) :
    Builds table (subqueriesOfDocuments documents) (enteredByDocuments documents)
      (advanceDocuments documents table) (fun v p => documentTrees v documents table p) d trees
      e := by
  cases documents with
  | nil =>
    rw [buildDocuments, runs_pure] at hrun
    rcases hrun with ⟨rfl, rfl⟩
    exact .refl table d []
  | cons document documents =>
    rcases runs_buildDocuments_cons_iff.1 hrun with ⟨trees, _, rest, hfirst, hrest, rfl⟩
    have hhead := buildEach_builds document (hc document List.mem_cons_self) h hfirst
    exact hhead.bind (fun trees rest => .all trees :: rest) h.tidy
      (buildDocuments_builds documents (fun document hd => hc document (List.mem_cons_of_mem _ hd))
        (h.grow hhead.grows) hrest)

theorem buildJoins_builds (targets : List (Target s (List (List (Condition s))))) {m : Model s}
    {table : TablePath} {within : Connective} {d e : Draft s} {trees : List (Predicate Test)}
    (reached : ∀ t ∈ targets, ∃ target, t.column.LeadsToRows m target)
    (nested : ∀ t ∈ targets, ∀ target, t.column.LeadsToRows m target →
      ∀ document ∈ t.nested, ∀ c ∈ document, c.Admitted target)
    (h : d.Ready table m) (hrun : (buildJoins within targets table).Runs d trees e) :
    Builds table (subqueriesOfJoins targets) (enteredByJoins targets) (advanceJoins targets table)
      (fun v p => joinTrees v within targets table p) d trees e := by
  cases targets with
  | nil =>
    rw [buildJoins, runs_pure] at hrun
    rcases hrun with ⟨rfl, rfl⟩
    exact .refl table d []
  | cons target targets =>
    rcases target with ⟨column, documents⟩
    rcases runs_buildJoins_cons_iff.1 hrun with
      ⟨path, _, trees, d₁, rest, hpath, hdocuments, hrest, rfl⟩
    rcases reached ⟨column, documents⟩ List.mem_cons_self with ⟨n, hrows⟩
    rcases builds_joinRelation h hrows hpath with ⟨rfl, hready, hjoin⟩
    -- the documents are about the rows of the target, so they are built at its table
    have hnested := buildDocuments_builds documents
      (nested ⟨column, documents⟩ List.mem_cons_self n hrows) hready hdocuments
    have hhead := hjoin.bind (fun _ trees => Predicate.node within trees) h.tidy (builds_of_join hnested)
    have htail := buildJoins_builds targets (fun t ht => reached t (List.mem_cons_of_mem _ ht))
      (fun t ht => nested t (List.mem_cons_of_mem _ ht)) (h.grow hhead.grows) hrest
    exact (hhead.bind List.cons h.tidy htail).congr rfl (fun _ _ => rfl) (fun _ _ _ => rfl)

theorem buildSelect_builds (target : Target s (List (Condition s))) {m : Model s}
    {table : TablePath} {d e : Draft s} {tree : Option (Predicate Test)}
    (reached : (target.column.LeadsToColumn m ∧ target.nested = []) ∨
      target.column.isColumn = false ∧ ∃ r, target.column.LeadsToRelation m r)
    (nested : ∀ r, target.column.LeadsToRelation m r → ∀ c ∈ target.nested, c.Admitted r.target)
    (h : d.Ready table m) (hrun : (buildSelect target table).Runs d tree e) :
    Builds table (subqueriesOfEach target.nested)
      (if target.column.isColumn then target.column.model.entered target.column.path
        else if target.nested.isEmpty then [] else target.column.model.entered target.column.segments)
      (advanceEach target.nested (table.join target.column.segments))
      (fun v p => if target.nested.isEmpty then none
        else some (.all (treeEach v target.nested (table.join target.column.segments) p))) d tree
      e := by
  rcases target with ⟨column, conditions⟩
  simp only at reached nested ⊢
  rcases reached with ⟨hcolumn, rfl⟩ | ⟨hcolumn, r, hr⟩
  · -- a column: its table is joined, and nothing is built inside
    rw [if_pos hcolumn.isColumn_eq]
    rcases (runs_buildSelect_column_iff hcolumn.isColumn_eq).1 hrun with ⟨path, _, hjoin, rfl, rfl⟩
    exact builds_selectColumn h hcolumn hjoin
  · -- a relation, which is joined only if there are conditions on its rows
    simp only [hcolumn, Bool.false_eq_true, if_false]
    rcases (runs_buildSelect_relation_iff hcolumn).1 hrun with
      ⟨d₁, hinclude, ⟨rfl, rfl, rfl⟩ | ⟨hsome, path, d₂, trees, hpath, hconditions, rfl⟩⟩
    · exact (builds_includeRelation table hinclude).map fun _ => none
    · have hload := builds_includeRelation table hinclude
      have hready := h.grow hload.grows
      rcases builds_joinRelation hready (.inr ⟨r, hr, rfl⟩) hpath with ⟨rfl, hready', hjoin⟩
      have hnested := buildEach_builds conditions (nested r hr) hready' hconditions
      have hhead := hload.bind (fun _ u => u) h.tidy hjoin
      have hsegments : column.segments ≠ [] := by
        rcases hr with ⟨_, _, name, _, hname, _⟩
        simp [Column.segments, hname]
      -- a relation has a name, so its rows are below the table
      have hbody := hnested.of_inner (TablePath.isBelow_join table hsegments)
      refine (hhead.bind (fun _ trees => some (Predicate.all trees)) h.tidy hbody).congr ?_
        (fun _ _ => rfl) (fun v p _ => ?_)
      · rw [if_neg (mt List.isEmpty_iff.1 hsome)]
        simp
      · rw [if_neg (mt List.isEmpty_iff.1 hsome)]
        rfl

theorem buildSelects_builds (targets : List (Target s (List (Condition s)))) {m : Model s}
    {table : TablePath} {d e : Draft s} {trees : List (Predicate Test)}
    (reached : ∀ t ∈ targets, (t.column.LeadsToColumn m ∧ t.nested = []) ∨
      t.column.isColumn = false ∧ ∃ r, t.column.LeadsToRelation m r)
    (nested : ∀ t ∈ targets, ∀ r, t.column.LeadsToRelation m r →
      ∀ c ∈ t.nested, c.Admitted r.target)
    (h : d.Ready table m) (hrun : (buildSelects targets table).Runs d trees e) :
    Builds table (subqueriesOfSelects targets) (enteredBySelects targets)
      (advanceSelects targets table) (fun v p => selectTrees v targets table p) d trees e := by
  cases targets with
  | nil =>
    rw [buildSelects, runs_pure] at hrun
    rcases hrun with ⟨rfl, rfl⟩
    exact .refl table d []
  | cons target targets =>
    rcases runs_buildSelects_cons_iff.1 hrun with ⟨tree, _, rest, hfirst, hrest, rfl⟩
    have hhead := buildSelect_builds target (reached target List.mem_cons_self)
      (nested target List.mem_cons_self) h hfirst
    have htail := buildSelects_builds targets (fun t ht => reached t (List.mem_cons_of_mem _ ht))
      (fun t ht => nested t (List.mem_cons_of_mem _ ht)) (h.grow hhead.grows) hrest
    refine (hhead.bind (fun (tree : Option (Predicate Test)) rest => tree.toList ++ rest)
      h.tidy htail).congr rfl
      (fun _ _ => rfl) (fun v p _ => ?_)
    simp only [selectTrees]
    split <;> rfl

end

end Condition

end DocQuery
