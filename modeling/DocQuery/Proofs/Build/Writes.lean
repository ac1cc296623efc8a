import DocQuery.Proofs.Build.Where
import DocQuery.Proofs.Condition.Fills

namespace DocQuery

/-! # What a build writes

`Writes` says all that building worded conditions writes into a draft: joins, selected and ordering
columns, and tests together with the values bound to their parameters. A sub-query writes into a
draft of its own, which is then embedded. Every name that is written is that of a joined table or of
one of its columns.

* `offers_of_runs_joinColumns`: every column that a test is about is a column of a joined table.
* `build_writes`: a worded condition writes what its tree has: joins, columns, and tests with their
  values.
-/

open Build Draft

variable {s : Schema} {allowed : Operand → Prop}

namespace Draft

/-- The column is one that the model of a joined table declares, qualified by the table's alias. -/
structure Offers (d : Draft s) (path : TablePath) (c : QualifiedColumn) : Prop where
  joined : path ∈ d.joined
  named : d.aliasAt? path = some c.tableAlias
  declared : ∃ m, d.modelAt? path = some m ∧ ∃ definition ∈ m.definition.columns,
    definition.name = c.column

/-- What building worded conditions makes of a draft, with the tests that it gives. -/
inductive Writes (allowed : Operand → Prop) : Draft s → List Test → Draft s → Prop where
  | refl (d : Draft s) : Writes allowed d [] d
  | trans {tests tests' : List Test} {d e f : Draft s} (first : Writes allowed d tests e)
      (second : Writes allowed e tests' f) : Writes allowed d (tests ++ tests') f
  | join {d e : Draft s} (step : JoinStep d e) : Writes allowed d [] e
  | select {d : Draft s} {path : TablePath} {c : QualifiedColumn} (offers : d.Offers path c) :
      Writes allowed d [] (d.addSelect (.column c))
  | order {d : Draft s} {path : TablePath} {c : QualifiedColumn} (offers : d.Offers path c)
      (direction : Direction) : Writes allowed d [] (d.addOrder path c.column direction)
  | load (d : Draft s) (path : TablePath) : Writes allowed d [] (d.addInclude path)
  | limit (d : Draft s) (n : Nat) : Writes allowed d [] (d.setLimit n)
  | offset (d : Draft s) (n : Nat) : Writes allowed d [] (d.setOffset n)
  /-- Values are bound, and tests ask about columns with the parameters. -/
  | test {d : Draft s} {columns : List QualifiedColumn} {values : List Operand} {tests : List Test}
      (offered : ∀ c ∈ columns, ∃ path, d.Offers path c)
      (fills : Fills allowed columns (d.bindAll values).1 values tests) :
      Writes allowed d tests (d.bindAll values).2
  /-- A sub-query is written in a draft of its own, correlated and joined. -/
  | embed {d built done : Draft s} {table : TablePath} {a : String} {relation : Relation s}
      {trees : List (Predicate Test)} (joined : table ∈ d.joined) (named : d.aliasAt? table = some a)
      (resolved : relation.Resolved)
      (inner : Writes allowed (d.nestedDraft (derivedPath d table relation.name) relation.target)
        (Predicate.childLeaves trees) built)
      (correlates : Correlates a relation (built.pushWhere (.all trees)) done) :
      Writes allowed d []
        (d.embed (derivedPath d table relation.name) relation.target done)

variable {d e f : Draft s} {tests : List Test}

/-- Joining writes joins. -/
theorem Joins.writes (h : Joins d e) : Writes allowed d [] e := by
  induction h with
  | refl => exact .refl d
  | tail _ step ih => exact .trans ih (.join step)

/-- Steps that give no tests come first. -/
theorem Writes.after (h : Writes allowed d [] e) (h' : Writes allowed e tests f) :
    Writes allowed d tests f := .trans h h'

/-- A column that is offered is offered after further joins. -/
theorem Offers.mono {path : TablePath} {c : QualifiedColumn} (h : d.Offers path c) (hjoins : Joins d e) :
    e.Offers path c where
  joined := hjoins.joined_subset h.joined
  named := hjoins.aliasAt?_eq h.named
  declared := by
    rw [hjoins.modelAt?_eq h.joined]
    exact h.declared

end Draft

namespace Condition

open Predicate

variable {d e : Draft s} {table : TablePath} {m : Model s}

/-! ## Columns -/

/-- A column that is reached is offered where its path leads, at the table or below it. -/
theorem offers_of_runs_joinColumn (h : d.Ready table m) {c : Column s} (hc : c.LeadsToColumn m)
    {path : TablePath} (hrun : (joinColumn table c).Runs d path e) :
    Joins d e ∧ table.steps <+: path.steps ∧
      ∃ a, e.columnAt path (c.name.getD "") = (⟨a, c.name.getD ""⟩, e) ∧
        e.Offers path ⟨a, c.name.getD ""⟩ := by
  rcases hc with ⟨rfl, n, name, hopen, hname, _, definition, hmem, hdefinition⟩
  rcases h.tidy.runs_joinColumn rfl hopen h.mem h.typed hrun with ⟨rfl, hfollow⟩
  rcases (hfollow.joins.tidy h.tidy).columnAt_joined hfollow.mem (c.name.getD "") with
    ⟨a, ha, hcolumn⟩
  refine ⟨hfollow.joins, List.prefix_append _ _, a, hcolumn, hfollow.mem, ha, n, hfollow.typed,
    definition, hmem, ?_⟩
  simp [hname, hdefinition]

/-- The columns that are joined are offered, each by a table at or below the given one. -/
theorem offers_of_runs_joinColumns (h : d.Ready table m) {columns : List (Column s)}
    (hreached : ∀ c ∈ columns, c.LeadsToColumn m) {qualified : List QualifiedColumn}
    (hrun : (joinColumns table columns).Runs d qualified e) :
    Joins d e ∧ qualified.length = columns.length ∧
      ∀ c ∈ qualified, ∃ path, table.steps <+: path.steps ∧ e.Offers path c := by
  induction columns generalizing d qualified with
  | nil =>
    rw [joinColumns, runs_pure] at hrun
    rcases hrun with ⟨rfl, rfl⟩
    exact ⟨.refl, rfl, List.forall_mem_nil _⟩
  | cons c columns ih =>
    rcases runs_joinColumns_cons_iff.1 hrun with ⟨path, d₁, rest, hcolumn, hrest, rfl⟩
    rcases offers_of_runs_joinColumn h (hreached c List.mem_cons_self) hcolumn with
      ⟨hjoins, hpath, a, hqualified, hoffers⟩
    rw [hqualified] at hrest ⊢
    rcases ih (h.grow hjoins.grows) (fun c hc => hreached c (List.mem_cons_of_mem _ hc)) hrest with
      ⟨hjoins', hlength, hoffers'⟩
    refine ⟨hjoins.trans hjoins', congrArg (· + 1) hlength, fun q hq => ?_⟩
    rcases List.mem_cons.1 hq with rfl | hq
    · exact ⟨path, hpath, hoffers.mono hjoins'⟩
    · exact hoffers' q hq

/-- Columns are joined, and tests on them written. -/
theorem writes_test (h : d.Ready table m) {columns : List (Column s)}
    (hreached : ∀ c ∈ columns, c.LeadsToColumn m) (values : List Operand)
    {qualified : List QualifiedColumn} (hrun : (joinColumns table columns).Runs d qualified e)
    {tests : List Test} (hfills : (columns ≠ [] → qualified ≠ []) →
      Fills allowed qualified (e.bindAll values).1 values tests) :
    Writes allowed d tests (e.bindAll values).2 := by
  rcases offers_of_runs_joinColumns h hreached hrun with ⟨hjoins, hlength, hoffers⟩
  have hoffered : ∀ c ∈ qualified, ∃ path, e.Offers path c := by
    intro c hc
    rcases hoffers c hc with ⟨path, _, hpath⟩
    exact ⟨path, hpath⟩
  refine hjoins.writes.after (.test hoffered (hfills fun hne => ?_))
  rintro rfl
  exact hne (List.length_eq_zero_iff.1 hlength.symm)

/-- An order writes the columns of its entries. -/
theorem writes_orderBy (h : d.Ready table m) {entries : List (Column s × Direction)}
    (hreached : ∀ e ∈ entries, e.1.LeadsToColumn m) {u : Unit}
    (hrun : (orderBy table entries).Runs d u e) : Writes allowed d [] e := by
  induction entries generalizing d with
  | nil =>
    rw [orderBy, runs_pure] at hrun
    rcases hrun with ⟨_, rfl⟩
    exact .refl d
  | cons entry entries ih =>
    rcases entry with ⟨column, direction⟩
    rcases runs_orderBy_cons_iff.1 hrun with ⟨path, d₁, hcolumn, hrest⟩
    rcases offers_of_runs_joinColumn h (hreached (column, direction) List.mem_cons_self) hcolumn with
      ⟨hjoins, _, a, _, hoffers⟩
    have horder : Grows [] d₁ (d₁.addOrder path (column.name.getD "") direction) :=
      .clause (.order hoffers.joined hoffers.named _ _)
    have hrest := ih ((h.grow hjoins.grows).grow horder)
      (fun e he => hreached e (List.mem_cons_of_mem _ he)) hrest
    exact hjoins.writes.after ((Writes.order hoffers direction).after hrest)

/-- Includes write nothing. -/
theorem writes_addIncludes (paths : List TablePath) (d : Draft s) :
    Writes allowed d [] (paths.foldl addInclude d) := by
  induction paths generalizing d with
  | nil => exact .refl d
  | cons path paths ih => exact (Writes.load d path).after (ih _)

/-- Neither does asking for a relation. -/
theorem writes_includeRelation {column : Column s} {u : Unit}
    (hrun : (includeRelation table column).Runs d u e) : Writes allowed d [] e := by
  rcases runs_includeRelation_iff.1 hrun with ⟨_, rfl⟩
  exact writes_addIncludes _ d

/-- A column is followed to rows. -/
theorem writes_joinRelation (h : d.Ready table m) {c : Column s} {n : Model s}
    (hrows : c.LeadsToRows m n) {reached : TablePath}
    (hrun : (joinRelation table c).Runs d reached e) : Writes allowed d [] e :=
  (runs_joinRelation h.tidy hrows h.mem h.typed hrun).2.joins.writes

/-- A conjunction has the tests of its members. -/
theorem childLeaves_all (trees : List (Predicate Test)) :
    childLeaves [Predicate.all trees] = childLeaves trees := by
  rw [childLeaves_singleton, Predicate.all, leaves]

/-! ## Conditions -/

/-- A sub-query is written and embedded, and the conditions on its row are written behind it. -/
theorem derivedJoin_writes {column : Column s} {relation : Relation s}
    {subquery conditions : List (Condition s)} {t : Option (Predicate Test)}
    (h : d.Ready table relation.owner) (hresolved : relation.Resolved)
    (hadmitted : ∀ c ∈ subquery, c.Admitted relation.target)
    (hsubquery : ∀ {d e : Draft s} {trees : List (Predicate Test)},
      d.Ready (.root relation.target.table) relation.target →
      (buildEach subquery (.root relation.target.table)).Runs d trees e →
      Writes allowed d (childLeaves trees) e)
    (hconditions : ∀ {path : TablePath} {d e : Draft s} {trees : List (Predicate Test)},
      d.Ready path relation.target → (buildEach conditions path).Runs d trees e →
      Writes allowed d (childLeaves trees) e)
    (hrun : (build (.derivedJoin column relation subquery conditions) table).Runs d t e) :
    Writes allowed d (childLeaves t.toList) e := by
  rcases (runs_derivedJoin_iff h).1 hrun with
      ⟨a, trees, built, done, trees', ha, hsub, hcorrelate, hnested, rfl⟩
  have hsubReady : (d.nestedDraft (derivedPath d table relation.name) relation.target).Ready
      (.root relation.target.table) relation.target :=
    ready_withBase relation.target _ _ _ _
  -- the sub-query is tied to its parent on a tidy draft, so this is one of the known ways
  have hbuilt := buildEach_builds subquery hadmitted hsubReady hsub
  have hcorrelates : Correlates a relation (built.pushWhere (.all trees)) done :=
    ((hbuilt.tidy hsubReady.tidy).withPredicate _).runs_correlate hcorrelate
  rw [Option.toList_some, childLeaves_all]
  exact (Writes.embed h.mem ha hresolved (hsubquery hsubReady hsub) hcorrelates).after
    (hconditions (h.embed relation.name relation.target done) hnested)

mutual

/-- An admitted and worded condition writes the tests of its tree. -/
theorem build_writes (c : Condition s) {m : Model s} {table : TablePath} {d e : Draft s}
    {t : Option (Predicate Test)} (hc : c.Admitted m) (hworded : c.Worded allowed)
    (h : d.Ready table m) (hrun : (build c table).Runs d t e) :
    Writes allowed d (childLeaves t.toList) e := by
  cases c with
  | comparison rule template columns values =>
    cases hc with
    | comparison reached =>
      cases hworded with
      | comparison fits some_column values_allowed =>
        rcases runs_comparison_iff.1 hrun with ⟨_, _, hcolumns, rfl, rfl⟩
        rw [Option.toList_some, childLeaves_singleton]
        exact writes_test h reached values hcolumns fun hne =>
          fills_comparison fits (hne some_column) values_allowed
  | presence rule template columns =>
    cases hc with
    | presence reached =>
      cases hworded with
      | presence fits =>
        rcases runs_presence_iff.1 hrun with ⟨_, hcolumns, rfl⟩
        rw [Option.toList_some, childLeaves_singleton, any, leaves]
        exact writes_test h reached [] hcolumns fun _ =>
          fills_eachColumn fits rfl (.inr rfl) (.inl (List.forall_mem_nil _))
  | membership rule template columns values =>
    cases hc with
    | membership reached =>
      cases hworded with
      | membership listed some_column some_value values_allowed =>
        rcases runs_membership_iff.1 hrun with ⟨_, _, hcolumns, rfl, rfl⟩
        rw [Option.toList_some, childLeaves_all]
        exact writes_test h reached [_] hcolumns fun hne =>
          fills_eachColumn (Template.fits_of_mem_memberships _ listed) rfl (.inl (hne some_column))
            (.inr ⟨_, rfl, some_value, values_allowed, listed, rfl⟩)
  | range rule template columns low high =>
    cases hc with
    | range reached =>
      cases hworded with
      | range fits some_column low_allowed high_allowed =>
        rcases runs_range_iff.1 hrun with ⟨_, _, hcolumns, rfl, rfl⟩
        rw [Option.toList_some, childLeaves_all]
        exact writes_test h reached [low, high] hcolumns fun hne =>
          fills_eachColumn fits rfl (.inl (hne some_column))
            (.inl (by simp [low_allowed, high_allowed]))
  | overlap rule template columns span =>
    cases hc with
    | overlap reached =>
      cases hworded with
      | overlap fits some_column start_allowed stop_allowed =>
        rcases runs_overlap_iff.1 hrun with ⟨_, _, hcolumns, rfl, rfl⟩
        rw [Option.toList_some, childLeaves_singleton, any, leaves]
        exact writes_test h reached [.instant span.start, .instant span.stop] hcolumns fun hne =>
          fills_eachPair fits rfl (hne some_column) (by simp [start_allowed, stop_allowed])
  | relationJoin targets =>
    cases hc with
    | relationJoin reached nested =>
      cases hworded with
      | relationJoin nested_worded =>
        rcases runs_relationJoin_iff.1 hrun with ⟨trees, hjoins, rfl⟩
        rw [Option.toList_some, childLeaves_singleton, leaves]
        exact buildJoins_writes targets reached nested nested_worded h hjoins
  | derivedJoin column relation subquery conditions =>
    cases hc with
    | derivedJoin own direct reached rows nested =>
      cases hworded with
      | derivedJoin rows_worded nested_worded =>
        rcases reached.resolved_owner own with ⟨hresolved, rfl⟩
        exact derivedJoin_writes h hresolved rows
          (fun hready hsub => buildEach_writes subquery rows rows_worded hready hsub)
          (fun hready hconditions =>
            buildEach_writes conditions nested nested_worded hready hconditions) hrun
  | select targets =>
    cases hc with
    | select reached nested =>
      cases hworded with
      | select nested_worded =>
        rcases runs_select_iff.1 hrun with ⟨trees, hselects, rfl⟩
        have hwrites := buildSelects_writes targets reached nested nested_worded h hselects
        -- targets without tests leave nothing, not an empty conjunction
        split
        · rename_i hempty
          rw [List.isEmpty_iff.1 hempty] at hwrites
          exact hwrites
        · rw [Option.toList_some, childLeaves_all]
          exact hwrites
  | order entries =>
    cases hc with
    | order reached =>
      rcases runs_order_iff.1 hrun with ⟨_, horder, rfl⟩
      exact writes_orderBy h reached horder
  | limit n =>
    rcases runs_clause_iff.1 hrun with ⟨_, rfl, rfl⟩
    exact .limit d n
  | offset n =>
    rcases runs_clause_iff.1 hrun with ⟨_, rfl, rfl⟩
    exact .offset d n

/-- Conditions write one after the other. -/
theorem buildEach_writes (conditions : List (Condition s)) {m : Model s} {table : TablePath}
    {d e : Draft s} {trees : List (Predicate Test)} (hc : ∀ c ∈ conditions, c.Admitted m)
    (hworded : ∀ c ∈ conditions, c.Worded allowed) (h : d.Ready table m)
    (hrun : (buildEach conditions table).Runs d trees e) :
    Writes allowed d (childLeaves trees) e := by
  cases conditions with
  | nil =>
    rw [buildEach, runs_pure] at hrun
    rcases hrun with ⟨rfl, rfl⟩
    exact .refl d
  | cons condition conditions =>
    rcases runs_buildEach_cons_iff.1 hrun with ⟨tree, _, rest, hfirst, hrest, rfl⟩
    rcases admitted_of_cons hc with ⟨hcondition, hconditions⟩
    have hhead := build_builds condition hcondition h hfirst
    rw [childLeaves_append]
    exact (build_writes condition hcondition (hworded _ List.mem_cons_self) h hfirst).trans
      (buildEach_writes conditions hconditions (fun c hc => hworded c (List.mem_cons_of_mem _ hc))
        (h.grow hhead.grows) hrest)

/-- So do documents. -/
theorem buildDocuments_writes (documents : List (List (Condition s))) {m : Model s}
    {table : TablePath} {d e : Draft s} {trees : List (Predicate Test)}
    (hc : ∀ document ∈ documents, ∀ c ∈ document, c.Admitted m)
    (hworded : ∀ document ∈ documents, ∀ c ∈ document, c.Worded allowed) (h : d.Ready table m)
    (hrun : (buildDocuments documents table).Runs d trees e) :
    Writes allowed d (childLeaves trees) e := by
  cases documents with
  | nil =>
    rw [buildDocuments, runs_pure] at hrun
    rcases hrun with ⟨rfl, rfl⟩
    exact .refl d
  | cons document documents =>
    rcases runs_buildDocuments_cons_iff.1 hrun with ⟨trees, _, rest, hfirst, hrest, rfl⟩
    have hhead := buildEach_builds document (hc document List.mem_cons_self) h hfirst
    rw [childLeaves, Predicate.all, leaves]
    exact (buildEach_writes document (hc document List.mem_cons_self)
      (hworded document List.mem_cons_self) h hfirst).trans
      (buildDocuments_writes documents (fun document hd => hc document (List.mem_cons_of_mem _ hd))
        (fun document hd => hworded document (List.mem_cons_of_mem _ hd)) (h.grow hhead.grows) hrest)

/-- So do the targets of a relation join. -/
theorem buildJoins_writes (targets : List (Target s (List (List (Condition s))))) {m : Model s}
    {table : TablePath} {within : Connective} {d e : Draft s} {trees : List (Predicate Test)}
    (reached : ∀ t ∈ targets, ∃ target, t.column.LeadsToRows m target)
    (nested : ∀ t ∈ targets, ∀ target, t.column.LeadsToRows m target →
      ∀ document ∈ t.nested, ∀ c ∈ document, c.Admitted target)
    (hworded : ∀ t ∈ targets, ∀ document ∈ t.nested, ∀ c ∈ document, c.Worded allowed)
    (h : d.Ready table m) (hrun : (buildJoins within targets table).Runs d trees e) :
    Writes allowed d (childLeaves trees) e := by
  cases targets with
  | nil =>
    rw [buildJoins, runs_pure] at hrun
    rcases hrun with ⟨rfl, rfl⟩
    exact .refl d
  | cons target targets =>
    rcases target with ⟨column, documents⟩
    rcases runs_buildJoins_cons_iff.1 hrun with
      ⟨path, _, trees, d₁, rest, hpath, hdocuments, hrest, rfl⟩
    rcases reached ⟨column, documents⟩ List.mem_cons_self with ⟨n, hrows⟩
    rcases builds_joinRelation h hrows hpath with ⟨rfl, hready, _⟩
    have hadmitted := nested ⟨column, documents⟩ List.mem_cons_self n hrows
    have hnested := buildDocuments_builds documents hadmitted hready hdocuments
    -- the table of the target outlives its documents, and so does this one
    have hready₁ :=
      (h.grow (runs_joinRelation h.tidy hrows h.mem h.typed hpath).2.joins.grows).grow hnested.grows
    have hfirst := (writes_joinRelation h hrows hpath).after (buildDocuments_writes documents hadmitted
      (hworded ⟨column, documents⟩ List.mem_cons_self) hready hdocuments)
    rw [childLeaves, leaves]
    exact hfirst.trans (buildJoins_writes targets (fun t ht => reached t (List.mem_cons_of_mem _ ht))
      (fun t ht => nested t (List.mem_cons_of_mem _ ht))
      (fun t ht => hworded t (List.mem_cons_of_mem _ ht)) hready₁ hrest)

/-- A target writes its column, or what its conditions write. -/
theorem buildSelect_writes (target : Target s (List (Condition s))) {m : Model s}
    {table : TablePath} {d e : Draft s} {tree : Option (Predicate Test)}
    (reached : (target.column.LeadsToColumn m ∧ target.nested = []) ∨
      target.column.isColumn = false ∧ ∃ r, target.column.LeadsToRelation m r)
    (nested : ∀ r, target.column.LeadsToRelation m r → ∀ c ∈ target.nested, c.Admitted r.target)
    (hworded : ∀ c ∈ target.nested, c.Worded allowed) (h : d.Ready table m)
    (hrun : (buildSelect target table).Runs d tree e) :
    Writes allowed d (childLeaves tree.toList) e := by
  rcases target with ⟨column, conditions⟩
  simp only at reached nested hworded
  -- a column is joined and selected; a relation is asked for and, with conditions, joined
  rcases reached with ⟨hcolumn, rfl⟩ | ⟨hcolumn, r, hr⟩
  · rcases (runs_buildSelect_column_iff hcolumn.isColumn_eq).1 hrun with ⟨path, _, hjoin, rfl, rfl⟩
    rcases offers_of_runs_joinColumn h hcolumn hjoin with ⟨hjoins, _, a, hqualified, hoffers⟩
    rw [hqualified]
    exact hjoins.writes.after (.select hoffers)
  · rcases (runs_buildSelect_relation_iff hcolumn).1 hrun with
      ⟨d₁, hinclude, ⟨rfl, rfl, rfl⟩ | ⟨_, path, d₂, trees, hpath, hconditions, rfl⟩⟩
    · exact writes_includeRelation hinclude
    · have hload : Writes allowed d [] d₁ := writes_includeRelation hinclude
      have hready := h.grow (builds_includeRelation table hinclude).grows
      have hjoin : Writes allowed d₁ [] d₂ := writes_joinRelation hready (.inr ⟨r, hr, rfl⟩) hpath
      rcases builds_joinRelation hready (.inr ⟨r, hr, rfl⟩) hpath with ⟨rfl, hready', _⟩
      rw [Option.toList_some, childLeaves_all]
      exact hload.after (hjoin.after
        (buildEach_writes conditions (nested r hr) hworded hready' hconditions))

/-- So do all targets of a selection. -/
theorem buildSelects_writes (targets : List (Target s (List (Condition s)))) {m : Model s}
    {table : TablePath} {d e : Draft s} {trees : List (Predicate Test)}
    (reached : ∀ t ∈ targets, (t.column.LeadsToColumn m ∧ t.nested = []) ∨
      t.column.isColumn = false ∧ ∃ r, t.column.LeadsToRelation m r)
    (nested : ∀ t ∈ targets, ∀ r, t.column.LeadsToRelation m r →
      ∀ c ∈ t.nested, c.Admitted r.target)
    (hworded : ∀ t ∈ targets, ∀ c ∈ t.nested, c.Worded allowed)
    (h : d.Ready table m) (hrun : (buildSelects targets table).Runs d trees e) :
    Writes allowed d (childLeaves trees) e := by
  cases targets with
  | nil =>
    rw [buildSelects, runs_pure] at hrun
    rcases hrun with ⟨rfl, rfl⟩
    exact .refl d
  | cons target targets =>
    rcases runs_buildSelects_cons_iff.1 hrun with ⟨tree, _, rest, hfirst, hrest, rfl⟩
    have hhead := buildSelect_builds target (reached target List.mem_cons_self)
      (nested target List.mem_cons_self) h hfirst
    rw [childLeaves_append]
    exact (buildSelect_writes target (reached target List.mem_cons_self)
      (nested target List.mem_cons_self) (hworded target List.mem_cons_self) h hfirst).trans
      (buildSelects_writes targets (fun t ht => reached t (List.mem_cons_of_mem _ ht))
        (fun t ht => nested t (List.mem_cons_of_mem _ ht))
        (fun t ht => hworded t (List.mem_cons_of_mem _ ht)) (h.grow hhead.grows) hrest)

end

end Condition

end DocQuery
