import Mathlib.Data.List.Infix
import DocQuery.Proofs.Build.Blind
import DocQuery.Proofs.Condition.Listed
import DocQuery.Proofs.Events.Events

namespace DocQuery

/-! # What a build leaves of its events

`Traces` says what the events of a build make of a draft: what is loaded, what enters the select
list and which statements are embedded. All other steps are quiet in this respect. A run that builds
admitted conditions traces the events of the conditions.

* `build_traces`: building an admitted condition traces its events, at every depth.
* `Compiles.traces`: so does compiling a query, whose events are those of its conditions.
-/

open Build Draft

variable {s : Schema}

/-- The statement of a derived table. -/
def Join.statement? {σ : Type} : Join σ → Option σ
  | derived _ statement => some statement
  | _ => none

/-- The statements of the derived tables, in the order in which they are joined. -/
def Statement.derived (statement : Statement) : List Statement :=
  statement.joins.filterMap Join.statement?

namespace Draft

/-- The statements of the derived tables so far. -/
def derived (d : Draft s) : List Statement := d.joins.filterMap Join.statement?

/-- Nothing is loaded, selected or embedded, and the base table stays. -/
structure Quiet (d e : Draft s) : Prop where
  includes : e.includes = d.includes
  select : e.select = d.select
  derived : e.derived = d.derived
  model : e.model = d.model
  baseAlias : e.baseAlias = d.baseAlias

theorem Quiet.refl (d : Draft s) : d.Quiet d := ⟨rfl, rfl, rfl, rfl, rfl⟩

theorem Quiet.trans {d e f : Draft s} (h : d.Quiet e) (h' : e.Quiet f) : d.Quiet f :=
  ⟨h'.includes.trans h.includes, h'.select.trans h.select, h'.derived.trans h.derived,
    h'.model.trans h.model, h'.baseAlias.trans h.baseAlias⟩

/-- A join adds the statement of a derived table, if it has one. -/
theorem derived_addJoin (d : Draft s) (join : Join Statement) :
    (d.addJoin join).derived = d.derived ++ join.statement?.toList := by
  rw [derived, addJoin, List.filterMap_append, derived]
  cases join <;> rfl

/-- A table that comes in is no derived table. -/
theorem quiet_introduce (d : Draft s) (path : TablePath) (table : String) (left : QualifiedColumn)
    (key : String) : d.Quiet (d.introduce path table left key) := by
  refine ⟨rfl, rfl, ?_, rfl, rfl⟩
  rw [introduce, derived_addJoin]
  exact List.append_nil _

/-- A step of joining is quiet, whichever of the three it is. -/
theorem JoinStep.quiet {d e : Draft s} (h : JoinStep d e) : d.Quiet e := by
  cases h with
  | single below found keys =>
    exact ⟨rfl, rfl, (quiet_introduce d _ _ _ _).derived, rfl, rfl⟩
  | double below found unnamed =>
    exact ⟨rfl, rfl, ((quiet_introduce d _ _ _ _).trans (quiet_introduce _ _ _ _ _)).derived, rfl, rfl⟩
  | through below found joined named => exact ⟨rfl, rfl, rfl, rfl, rfl⟩

/-- So is any number of them. -/
theorem Joins.quiet {d e : Draft s} (h : Joins d e) : d.Quiet e := by
  induction h with
  | refl => exact .refl d
  | tail _ step ih => exact ih.trans step.quiet

/-- Binding values is quiet. -/
theorem quiet_bindAll (d : Draft s) (values : List Operand) : d.Quiet (d.bindAll values).2 := by
  induction values generalizing d with
  | nil => exact .refl d
  | cons value values ih =>
    have hfirst : d.Quiet (d.bind value).2 := ⟨rfl, rfl, rfl, rfl, rfl⟩
    exact hfirst.trans (ih (d.bind value).2)

/-- Naming a path is quiet. -/
theorem quiet_aliasOf (d : Draft s) (path : TablePath) : d.Quiet (d.aliasOf path).2 := by
  unfold aliasOf
  split
  · exact .refl d
  · exact ⟨rfl, rfl, rfl, rfl, rfl⟩

/-- Tying a sub-query to its parent is quiet: it adds a test, and at most the join of a join table. -/
theorem Correlates.quiet {d e : Draft s} {a : String} {relation : Relation s}
    (h : Correlates a relation d e) : d.Quiet e := by
  cases h with
  | hasMany named => exact ⟨rfl, rfl, rfl, rfl, rfl⟩
  | belongsTo named => exact ⟨rfl, rfl, rfl, rfl, rfl⟩
  | @manyToMany _ e' a name joinTable foreignKey associationKey owner target definition named =>
    have halias := quiet_aliasOf d (d.base.child (.joinTable name))
    rw [named] at halias
    refine halias.trans ⟨rfl, rfl, ?_, rfl, rfl⟩
    exact (derived_addJoin e' _).trans (List.append_nil _)

/-- What events make of a draft. -/
inductive Traces : List (Event s) → Draft s → Draft s → Prop where
  | quiet {d e : Draft s} (h : d.Quiet e) : Traces [] d e
  | trans {events events' : List (Event s)} {d e f : Draft s} (first : Traces events d e)
      (second : Traces events' e f) : Traces (events ++ events') d f
  /-- The relations on the way are loaded too. -/
  | load {d : Draft s} {spot : Spot} {paths : List TablePath}
      (onTheWay : ∀ path ∈ paths, path.relationNames <+: spot.table.relationNames) :
      Traces [.load spot] d ((paths.foldl addInclude d).addInclude spot.table)
  | list {d : Draft s} {c : QualifiedColumn} (undotted : '.' ∉ c.column.toList) :
      Traces [.list c.column] d (d.addSelect (.column c))
  /-- The events of a sub-query happen in a draft of its own. -/
  | embed {d built done : Draft s} {place : TablePath} {a : String} {relation : Relation s}
      {subquery : List (Condition s)} {trees : List (Predicate Test)} {inner : List (Event s)}
      (account : Condition.Accounts inner (Condition.listedByEach subquery)
        (Condition.subqueriesOfEach subquery))
      (inside : Traces inner (d.nestedDraft place relation.target) built)
      (correlates : Correlates a relation (built.pushWhere (.all trees)) done) :
      Traces [.embed relation subquery inner] d (d.embed place relation.target done)

variable {d e f : Draft s} {events : List (Event s)}

/-- Nothing leaves no trace. -/
theorem Traces.refl (d : Draft s) : Traces [] d d := .quiet (.refl d)

/-- Quiet steps come first. -/
theorem Quiet.before (h : d.Quiet e) (h' : Traces events e f) : Traces events d f :=
  .trans (.quiet h) h'

/-- Quiet steps come last. -/
theorem Traces.after (h : Traces events d e) (h' : e.Quiet f) : Traces events d f := by
  rw [← List.append_nil events]
  exact h.trans (.quiet h')

/-! ## Building at a spot -/

/-- Conditions on the model can be built at the spot, where the build has come as far as `p`. -/
structure Stands (d : Draft s) (spot : Spot) (m : Model s) (p : Progress) : Prop where
  ready : d.Ready spot.table m
  progress : d.At p
  below : d.base.steps <+: spot.table.steps

variable {spot : Spot} {m : Model s} {p : Progress}

/-- A draft that has grown stands where it stood, further on. -/
theorem Stands.grow {subqueries : List (Relation s × List (Condition s))} {entered : List String}
    {advance : Progress → Progress} {τ : Type} {result : Naming → Progress → τ} {t : τ}
    (h : d.Stands spot m p) (hbuilds : Builds spot.table subqueries entered advance result d t e) :
    e.Stands spot m (advance p) where
  ready := h.ready.grow hbuilds.grows
  progress := hbuilds.progress p h.progress
  below := by
    rw [(hbuilds.grows.tidy_steady h.ready.tidy).2.base]
    exact h.below

/-- At the base table nothing else can stand. -/
theorem Stands.table_eq_base (h : d.Stands spot m p) (hroot : spot.table.isRoot = true) :
    spot.table = d.base :=
  h.ready.tidy.eq_base_of_isRoot h.below hroot

/-- The draft of a sub-query stands at the spot of the relation. -/
theorem stands_nestedDraft (h : d.Stands spot m p) (place : TablePath) (relation : Relation s) :
    (d.nestedDraft place relation.target).Stands (spot.nest relation) relation.target p.nested where
  ready := ready_withBase relation.target _ _ _ _
  progress := by
    rw [Progress.nested, ← h.progress.lastParam]
    exact at_nestedDraft d place relation.target
  below := List.prefix_refl _

end Draft

/-- A prefix of a path names a prefix of its relations. -/
theorem TablePath.relationNames_join_prefix (table : TablePath) {path segments : List String}
    (h : path <+: segments) :
    (table.join path).relationNames <+: (table.join segments).relationNames := by
  rcases h with ⟨rest, rfl⟩
  have hsteps : (table.join path).steps <+: (table.join (path ++ rest)).steps :=
    ⟨rest.map PathStep.relation, by simp [join]⟩
  exact (hsteps.drop 1).filterMap _

/-- The hops of a path end on the path. -/
theorem Column.prefix_of_mem_hopsFrom {m : Model s} {walked path : List String} {hop : Hop s}
    (h : hop ∈ (hopsFrom m walked path).1) : hop.path <+: walked ++ path := by
  induction path generalizing m walked with
  | nil => cases h
  | cons name path ih =>
    rw [hopsFrom] at h
    split at h
    · cases h
    · have hwalked : walked ++ name :: path = walked ++ [name] ++ path := by simp
      rw [hwalked]
      rcases List.mem_cons.1 h with rfl | hrest
      · exact List.prefix_append _ _
      · exact ih hrest

namespace Condition

variable {d e : Draft s} {spot : Spot} {m : Model s} {p : Progress}

/-- Names in lists have no points. -/
abbrev Undotted (c : Condition s) : Prop := c.Lists fun name => '.' ∉ name.toList

/-! ## Steps without nested conditions -/

/-- Columns are joined and values bound. -/
theorem quiet_test (h : d.Stands spot m p) {columns : List (Column s)}
    (hreached : ∀ c ∈ columns, c.LeadsToColumn m) (values : List Operand)
    {qualified : List QualifiedColumn} (hrun : (joinColumns spot.table columns).Runs d qualified e) :
    d.Quiet (e.bindAll values).2 :=
  (runs_joinColumns h.ready.tidy hreached h.ready.mem h.ready.typed hrun).joins.quiet.trans
    (quiet_bindAll e values)

/-- Asking for a relation loads its path, of which the other includes are prefixes. -/
theorem traces_includeRelation {column : Column s} {u : Unit}
    (hrun : (includeRelation spot.table column).Runs d u e) :
    Traces [.load (spot.follow column.segments)] d e := by
  rcases runs_includeRelation_iff.1 hrun with ⟨_, rfl⟩
  rw [List.foldl_append]
  refine .load fun path hpath => ?_
  rcases List.mem_map.1 hpath with ⟨hop, hhop, rfl⟩
  have hmem : hop ∈ (Column.hopsFrom column.model [] column.path).1 := hhop
  have hway := Column.prefix_of_mem_hopsFrom hmem
  rw [List.nil_append] at hway
  exact TablePath.relationNames_join_prefix spot.table (hway.trans (List.prefix_append _ _))

/-- An order lists the columns of joined tables, and those of the base nowhere. -/
theorem traces_orderBy (h : d.Stands spot m p) (hroot : spot.table.isRoot = true)
    {entries : List (Column s × Direction)} (hreached : ∀ e ∈ entries, e.1.LeadsToColumn m)
    (hnamed : ∀ e ∈ entries, '.' ∉ (e.1.name.getD "").toList) {u : Unit}
    (hrun : (orderBy spot.table entries).Runs d u e) :
    Traces ((entries.filter fun e => e.1.path ≠ []).map fun e => .list (e.1.name.getD "")) d e := by
  induction entries generalizing d with
  | nil =>
    rw [orderBy, runs_pure] at hrun
    rcases hrun with ⟨_, rfl⟩
    exact .refl d
  | cons entry entries ih =>
    rcases entry with ⟨column, direction⟩
    rcases runs_orderBy_cons_iff.1 hrun with ⟨_, d₁, hcolumn, hrest⟩
    rcases hreached (column, direction) List.mem_cons_self with ⟨rfl, n, name, hopen, hname, _⟩
    rcases h.ready.tidy.runs_joinColumn rfl hopen h.ready.mem h.ready.typed hcolumn with
      ⟨rfl, hfollow⟩
    have hjoin := h.grow (Builds.of_joins hfollow.joins hfollow.spreads ())
    rcases hjoin.ready.tidy.columnAt_joined hfollow.mem (column.name.getD "") with ⟨a, ha, hqualified⟩
    have horder : Grows [] d₁ (d₁.addOrder (spot.table.join column.path) (column.name.getD "")
        direction) := .clause (.order hfollow.mem ha _ _)
    have hstands := hjoin.grow (Builds.of_sameTables horder
      (sameTables_addOrder ha _ _) (lastParam_addOrder ha _ _) ())
    have htail := ih hstands (fun e he => hreached e (List.mem_cons_of_mem _ he))
      (fun e he => hnamed e (List.mem_cons_of_mem _ he)) hrest
    have hbase := hjoin.table_eq_base hroot
    refine hfollow.joins.quiet.before ?_
    by_cases hpath : column.path = []
    · -- a column of the base table is not selected in addition
      have hfilter : ((column, direction) :: entries).filter (fun e => e.1.path ≠ []) =
          entries.filter fun e => e.1.path ≠ [] := by simp [hpath]
      rw [hfilter]
      refine Quiet.before ?_ htail
      have hhere : spot.table.join column.path = d₁.base := by
        rw [hpath, TablePath.join_nil, hbase]
      rw [addOrder, hqualified]
      simp only [hhere, if_true]
      exact ⟨rfl, rfl, rfl, rfl, rfl⟩
    · have hfilter : ((column, direction) :: entries).filter (fun e => e.1.path ≠ []) =
          (column, direction) :: entries.filter fun e => e.1.path ≠ [] := by simp [hpath]
      rw [hfilter, List.map_cons]
      have helse : spot.table.join column.path ≠ d₁.base := by
        intro heq
        rw [← hbase] at heq
        exact TablePath.not_isBelow_self _ (heq ▸ TablePath.isBelow_join spot.table hpath)
      have hlist : Traces (s := s) [.list (column.name.getD "")] d₁
          (d₁.addSelect (.column ⟨a, column.name.getD ""⟩)) :=
        .list (c := ⟨a, column.name.getD ""⟩) (hnamed (column, direction) List.mem_cons_self)
      have hstep : Traces (s := s) [.list (column.name.getD "")] d₁
          (d₁.addOrder (spot.table.join column.path) (column.name.getD "") direction) := by
        rw [addOrder, hqualified]
        simp only [helse, if_false]
        exact hlist.after ⟨rfl, rfl, rfl, rfl, rfl⟩
      exact hstep.trans htail

/-- A column is followed to rows, at whose spot conditions can be built. -/
theorem stands_joinRelation (h : d.Stands spot m p) {c : Column s} {n : Model s}
    (hrows : c.LeadsToRows m n) {reached : TablePath}
    (hrun : (joinRelation spot.table c).Runs d reached e) :
    reached = (spot.follow c.segments).table ∧
      Builds spot.table [] (c.model.entered c.segments) id (fun _ _ => ()) d () e ∧
      e.Stands (spot.follow c.segments) n p := by
  rcases builds_joinRelation h.ready hrows hrun with ⟨rfl, hready, hjoin⟩
  have hgrown := h.grow hjoin
  exact ⟨rfl, hjoin, hready, hgrown.progress, hgrown.below.trans (List.prefix_append _ _)⟩

/-! ## Conditions -/

/-- A sub-query is built in its draft and embedded; then the conditions on its row are built. -/
theorem derivedJoin_traces {column : Column s} {relation : Relation s}
    {subquery conditions : List (Condition s)} {t : Option (Predicate Test)}
    (h : d.Stands spot relation.owner p) (hresolved : relation.Resolved)
    (hadmitted : ∀ c ∈ subquery, c.Admitted relation.target)
    (hsubquery : ∀ {spot : Spot} {p : Progress} {d e : Draft s} {trees : List (Predicate Test)},
      d.Stands spot relation.target p → (buildEach subquery spot.table).Runs d trees e →
      Traces (eventsOfEach subquery spot p) d e)
    (hconditions : ∀ {spot : Spot} {p : Progress} {d e : Draft s} {trees : List (Predicate Test)},
      d.Stands spot relation.target p → (buildEach conditions spot.table).Runs d trees e →
      Traces (eventsOfEach conditions spot p) d e)
    (hrun : (build (.derivedJoin column relation subquery conditions) spot.table).Runs d t e) :
    Traces (events (.derivedJoin column relation subquery conditions) spot p) d e := by
  rcases (runs_derivedJoin_iff h.ready).1 hrun with
      ⟨a, trees, built, done, trees', ha, hsub, hcorrelate, hnested, rfl⟩
  have hinside := stands_nestedDraft h (derivedPath d spot.table relation.name) relation
  have hbuilt := buildEach_builds subquery hadmitted hinside.ready hsub
  have hcorrelates : Correlates a relation (built.pushWhere (.all trees)) done :=
    ((hbuilt.tidy hinside.ready.tidy).withPredicate _).runs_correlate hcorrelate
  have hembed := builds_embed h.ready hresolved ha hbuilt hcorrelates
  -- the row is read at the path of the derived table, which the progress tells
  have hpath := h.progress.derivedPath_eq spot.table relation.name
  have hrow : (d.embed (derivedPath d spot.table relation.name) relation.target done).Stands
      (spot.derive p.derived relation.name) relation.target
      (p.claim (advanceEach subquery (.root relation.target.table) p.nested)
        (spot.derive p.derived relation.name).table) := by
    have hready := h.ready.embed relation.name relation.target done
    rcases derivedPath_eq_child d spot.table relation.name with ⟨name, hname⟩
    refine ⟨?_, hembed.progress p h.progress, ?_⟩
    · rw [hpath] at hready ⊢
      exact hready
    · have hsteps : (spot.derive p.derived relation.name).table.steps =
          spot.table.steps ++ [.derived name] := by
        rw [Spot.derive, ← hpath, hname]
        rfl
      rw [hsteps]
      exact h.below.trans (List.prefix_append _ _)
  have hbuildRow : (buildEach conditions (spot.derive p.derived relation.name).table).Runs
      (d.embed (derivedPath d spot.table relation.name) relation.target done) trees' e := by
    show (buildEach conditions (freePath p.derived spot.table relation.name)).Runs _ _ _
    rw [← hpath]
    exact hnested
  have haccount := eventsOfEach_account subquery (spot.nest relation) p.nested
  exact (Traces.embed haccount (hsubquery hinside hsub) hcorrelates).trans (hconditions hrow hbuildRow)

mutual

/-- Building an admitted condition traces its events. -/
theorem build_traces (c : Condition s) {m : Model s} {spot : Spot} {p : Progress} {d e : Draft s}
    {t : Option (Predicate Test)} (hc : c.Admitted m) (hlists : c.Undotted) (h : d.Stands spot m p)
    (hrun : (build c spot.table).Runs d t e) : Traces (c.events spot p) d e := by
  cases c with
  -- the five forms that test columns are quiet
  | comparison rule template columns values =>
    cases hc with
    | comparison reached =>
      rcases runs_comparison_iff.1 hrun with ⟨_, _, hcolumns, rfl, rfl⟩
      exact .quiet (quiet_test h reached values hcolumns)
  | presence rule template columns =>
    cases hc with
    | presence reached =>
      rcases runs_presence_iff.1 hrun with ⟨_, hcolumns, rfl⟩
      exact .quiet (quiet_test h reached [] hcolumns)
  | membership rule template columns values =>
    cases hc with
    | membership reached =>
      rcases runs_membership_iff.1 hrun with ⟨_, _, hcolumns, rfl, rfl⟩
      exact .quiet (quiet_test h reached [values] hcolumns)
  | range rule template columns low high =>
    cases hc with
    | range reached =>
      rcases runs_range_iff.1 hrun with ⟨_, _, hcolumns, rfl, rfl⟩
      exact .quiet (quiet_test h reached [low, high] hcolumns)
  | overlap rule template columns span =>
    cases hc with
    | overlap reached =>
      rcases runs_overlap_iff.1 hrun with ⟨_, _, hcolumns, rfl, rfl⟩
      exact .quiet (quiet_test h reached [.instant span.start, .instant span.stop] hcolumns)
  -- the forms with documents trace what their documents trace, the hypotheses split by form
  | relationJoin targets =>
    cases hc with
    | relationJoin reached nested =>
      cases hlists with
      | relationJoin nested_lists =>
        rcases runs_relationJoin_iff.1 hrun with ⟨trees, hjoins, rfl⟩
        exact buildJoins_traces targets reached nested nested_lists h hjoins
  | derivedJoin column relation subquery conditions =>
    cases hc with
    | derivedJoin own direct reached rows nested =>
      cases hlists with
      | derivedJoin rows_lists nested_lists =>
        rcases reached.resolved_owner own with ⟨hresolved, rfl⟩
        exact derivedJoin_traces h hresolved rows
          (fun hstands hsub => buildEach_traces subquery rows rows_lists hstands hsub)
          (fun hstands hconditions =>
            buildEach_traces conditions nested nested_lists hstands hconditions) hrun
  | select targets =>
    cases hc with
    | select reached nested =>
      cases hlists with
      | select named nested_lists =>
        rcases runs_select_iff.1 hrun with ⟨trees, hselects, rfl⟩
        exact buildSelects_traces targets reached nested named nested_lists h hselects
  | order entries =>
    cases hc with
    | order reached =>
      cases hlists with
      | order named =>
        rcases runs_order_iff.1 hrun with ⟨hroot, horder, rfl⟩
        exact traces_orderBy h hroot reached named horder
  -- a limit and an offset leave all that is traced alone
  | limit n =>
    rcases runs_clause_iff.1 hrun with ⟨_, rfl, rfl⟩
    exact .quiet ⟨rfl, rfl, rfl, rfl, rfl⟩
  | offset n =>
    rcases runs_clause_iff.1 hrun with ⟨_, rfl, rfl⟩
    exact .quiet ⟨rfl, rfl, rfl, rfl, rfl⟩

/-- Conditions leave the traces of their events one after the other. -/
theorem buildEach_traces (conditions : List (Condition s)) {m : Model s} {spot : Spot} {p : Progress}
    {d e : Draft s} {trees : List (Predicate Test)} (hc : ∀ c ∈ conditions, c.Admitted m)
    (hlists : ∀ c ∈ conditions, c.Undotted) (h : d.Stands spot m p)
    (hrun : (buildEach conditions spot.table).Runs d trees e) :
    Traces (eventsOfEach conditions spot p) d e := by
  cases conditions with
  | nil =>
    rw [buildEach, runs_pure] at hrun
    rcases hrun with ⟨rfl, rfl⟩
    exact .refl d
  | cons condition conditions =>
    rcases runs_buildEach_cons_iff.1 hrun with ⟨tree, _, rest, hfirst, hrest, rfl⟩
    rcases admitted_of_cons hc with ⟨hcondition, hconditions⟩
    have hhead := build_builds condition hcondition h.ready hfirst
    exact (build_traces condition hcondition (hlists _ List.mem_cons_self) h hfirst).trans
      (buildEach_traces conditions hconditions (fun c hc => hlists c (List.mem_cons_of_mem _ hc))
        (h.grow hhead) hrest)

/-- So do documents. -/
theorem buildDocuments_traces (documents : List (List (Condition s))) {m : Model s} {spot : Spot}
    {p : Progress} {d e : Draft s} {trees : List (Predicate Test)}
    (hc : ∀ document ∈ documents, ∀ c ∈ document, c.Admitted m)
    (hlists : ∀ document ∈ documents, ∀ c ∈ document, c.Undotted) (h : d.Stands spot m p)
    (hrun : (buildDocuments documents spot.table).Runs d trees e) :
    Traces (eventsOfDocuments documents spot p) d e := by
  cases documents with
  | nil =>
    rw [buildDocuments, runs_pure] at hrun
    rcases hrun with ⟨rfl, rfl⟩
    exact .refl d
  | cons document documents =>
    rcases runs_buildDocuments_cons_iff.1 hrun with ⟨trees, _, rest, hfirst, hrest, rfl⟩
    have hhead := buildEach_builds document (hc document List.mem_cons_self) h.ready hfirst
    exact (buildEach_traces document (hc document List.mem_cons_self)
      (hlists document List.mem_cons_self) h hfirst).trans
      (buildDocuments_traces documents (fun document hd => hc document (List.mem_cons_of_mem _ hd))
        (fun document hd => hlists document (List.mem_cons_of_mem _ hd)) (h.grow hhead) hrest)

/-- The targets of a relation join leave the traces of their documents. -/
theorem buildJoins_traces (targets : List (Target s (List (List (Condition s))))) {m : Model s}
    {spot : Spot} {p : Progress} {within : Connective} {d e : Draft s}
    {trees : List (Predicate Test)}
    (reached : ∀ t ∈ targets, ∃ target, t.column.LeadsToRows m target)
    (nested : ∀ t ∈ targets, ∀ target, t.column.LeadsToRows m target →
      ∀ document ∈ t.nested, ∀ c ∈ document, c.Admitted target)
    (hlists : ∀ t ∈ targets, ∀ document ∈ t.nested, ∀ c ∈ document, c.Undotted)
    (h : d.Stands spot m p) (hrun : (buildJoins within targets spot.table).Runs d trees e) :
    Traces (eventsOfJoins targets spot p) d e := by
  cases targets with
  | nil =>
    rw [buildJoins, runs_pure] at hrun
    rcases hrun with ⟨rfl, rfl⟩
    exact .refl d
  | cons target targets =>
    rcases target with ⟨column, documents⟩
    rcases runs_buildJoins_cons_iff.1 hrun with
      ⟨path, _, trees, d₁, rest, hpath, hdocuments, hrest, rfl⟩
    rcases reached ⟨column, documents⟩ List.mem_cons_self with ⟨n, hrows⟩
    -- joining the relation is quiet and comes before what its documents trace
    have hquiet :=
      (runs_joinRelation h.ready.tidy hrows h.ready.mem h.ready.typed hpath).2.joins.quiet
    rcases stands_joinRelation h hrows hpath with ⟨rfl, hjoin, hstands⟩
    have hadmitted := nested ⟨column, documents⟩ List.mem_cons_self n hrows
    have hnested := buildDocuments_builds documents hadmitted hstands.ready hdocuments
    have hhead := hjoin.bind (fun _ trees => trees) h.ready.tidy (builds_of_join hnested)
    have hfirst := hquiet.before (buildDocuments_traces documents hadmitted
      (hlists ⟨column, documents⟩ List.mem_cons_self) hstands hdocuments)
    exact hfirst.trans (buildJoins_traces targets (fun t ht => reached t (List.mem_cons_of_mem _ ht))
      (fun t ht => nested t (List.mem_cons_of_mem _ ht))
      (fun t ht => hlists t (List.mem_cons_of_mem _ ht)) (h.grow hhead) hrest)

/-- A target lists its column, or loads its relation before its conditions leave their traces. -/
theorem buildSelect_traces (target : Target s (List (Condition s))) {m : Model s} {spot : Spot}
    {p : Progress} {d e : Draft s} {tree : Option (Predicate Test)}
    (reached : (target.column.LeadsToColumn m ∧ target.nested = []) ∨
      target.column.isColumn = false ∧ ∃ r, target.column.LeadsToRelation m r)
    (nested : ∀ r, target.column.LeadsToRelation m r → ∀ c ∈ target.nested, c.Admitted r.target)
    (named : target.column.isColumn = true → '.' ∉ (target.column.name.getD "").toList)
    (hlists : ∀ c ∈ target.nested, c.Undotted) (h : d.Stands spot m p)
    (hrun : (buildSelect target spot.table).Runs d tree e) :
    Traces ((if target.column.isColumn then .list (target.column.name.getD "")
        else .load (spot.follow target.column.segments))
      :: eventsOfEach target.nested (spot.follow target.column.segments) p) d e := by
  rcases target with ⟨column, conditions⟩
  simp only at reached nested named hlists ⊢
  rcases reached with ⟨hcolumn, rfl⟩ | ⟨hcolumn, r, hr⟩
  · -- a column: its table is joined, and its name is listed
    simp only [hcolumn.isColumn_eq, if_true]
    rcases (runs_buildSelect_column_iff hcolumn.isColumn_eq).1 hrun with
      ⟨path, d₁, hjoin, rfl, rfl⟩
    have hname := named hcolumn.isColumn_eq
    rcases hcolumn with ⟨rfl, n, name, hopen, _⟩
    rcases h.ready.tidy.runs_joinColumn rfl hopen h.ready.mem h.ready.typed hjoin with
      ⟨rfl, hfollow⟩
    rcases (hfollow.joins.tidy h.ready.tidy).columnAt_joined hfollow.mem (column.name.getD "") with
      ⟨a, ha, hqualified⟩
    rw [hqualified]
    exact hfollow.joins.quiet.before (.list (c := ⟨a, column.name.getD ""⟩) hname)
  · -- a relation, which is joined only if there are conditions on its rows
    simp only [hcolumn, Bool.false_eq_true, if_false]
    rcases (runs_buildSelect_relation_iff hcolumn).1 hrun with
      ⟨d₁, hinclude, ⟨rfl, rfl, rfl⟩ | ⟨_, path, d₂, trees, hpath, hconditions, rfl⟩⟩
    · exact traces_includeRelation hinclude
    · have hload := traces_includeRelation hinclude
      have hloaded := h.grow (builds_includeRelation spot.table hinclude)
      have hrows : column.LeadsToRows m r.target := .inr ⟨r, hr, rfl⟩
      have hquiet := (runs_joinRelation hloaded.ready.tidy hrows hloaded.ready.mem
        hloaded.ready.typed hpath).2.joins.quiet
      rcases stands_joinRelation hloaded hrows hpath with ⟨rfl, _, hstands⟩
      exact hload.trans (hquiet.before
        (buildEach_traces conditions (nested r hr) hlists hstands hconditions))

/-- So do all targets of a selection. -/
theorem buildSelects_traces (targets : List (Target s (List (Condition s)))) {m : Model s}
    {spot : Spot} {p : Progress} {d e : Draft s} {trees : List (Predicate Test)}
    (reached : ∀ t ∈ targets, (t.column.LeadsToColumn m ∧ t.nested = []) ∨
      t.column.isColumn = false ∧ ∃ r, t.column.LeadsToRelation m r)
    (nested : ∀ t ∈ targets, ∀ r, t.column.LeadsToRelation m r →
      ∀ c ∈ t.nested, c.Admitted r.target)
    (named : ∀ t ∈ targets, t.column.isColumn = true → '.' ∉ (t.column.name.getD "").toList)
    (hlists : ∀ t ∈ targets, ∀ c ∈ t.nested, c.Undotted) (h : d.Stands spot m p)
    (hrun : (buildSelects targets spot.table).Runs d trees e) :
    Traces (eventsOfSelects targets spot p) d e := by
  cases targets with
  | nil =>
    rw [buildSelects, runs_pure] at hrun
    rcases hrun with ⟨rfl, rfl⟩
    exact .refl d
  | cons target targets =>
    rcases runs_buildSelects_cons_iff.1 hrun with ⟨tree, _, rest, hfirst, hrest, rfl⟩
    have hhead := buildSelect_builds target (reached target List.mem_cons_self)
      (nested target List.mem_cons_self) h.ready hfirst
    exact (buildSelect_traces target (reached target List.mem_cons_self)
      (nested target List.mem_cons_self) (named target List.mem_cons_self)
      (hlists target List.mem_cons_self) h hfirst).trans
      (buildSelects_traces targets (fun t ht => reached t (List.mem_cons_of_mem _ ht))
        (fun t ht => nested t (List.mem_cons_of_mem _ ht))
        (fun t ht => named t (List.mem_cons_of_mem _ ht))
        (fun t ht => hlists t (List.mem_cons_of_mem _ ht)) (h.grow hhead) hrest)

end

end Condition

namespace Query

variable {model : String} {query : Json} {config : Config} {root : Model s}
  {conditions : List (Condition s)} {done : Draft s} {plan : Plan}

/-- Compiling a query traces the events of its conditions. -/
theorem Compiles.traces (h : Compiles s model query config root conditions done plan) :
    Traces (Condition.eventsOfEach conditions (.start root) ⟨0, []⟩) (Draft.new root config) done := by
  rcases h.buildEach with ⟨trees, e, hrun, rfl⟩
  have hlists : ∀ c ∈ conditions, c.Undotted :=
    Condition.lists_of_ofDocument (fun _ _ _ hundotted => hundotted) h.conditions_eq
  have hstands : (Draft.new root config).Stands (.start root) root ⟨0, []⟩ :=
    ⟨ready_withBase root config root.table [] 0, at_new root config, List.prefix_refl _⟩
  have htraces := Condition.buildEach_traces conditions h.admitted hlists hstands hrun
  exact htraces.after ⟨rfl, rfl, rfl, rfl, rfl⟩

end Query

end DocQuery
