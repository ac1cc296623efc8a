import DocQuery.Proofs.Build.Derived
import DocQuery.Proofs.Build.Mirror
import DocQuery.Proofs.Predicate.Normal

namespace DocQuery

/-! # Replacing conditions

Conditions can be replaced by others if the others can be built on drafts alike wherever they can,
to drafts alike and with trees that add the same to a conjunction. What stands in a nested document
can be replaced there, and so the document, the condition that it belongs to and the whole query
can.

* `ReplacedBy.append`: what can be replaced can be replaced among others.
* `replacedBy_relationJoin`: and its neighbours: so can a condition with such documents in it.
* `replacedBy_self`: every admitted condition can be replaced by itself.
-/

open Build Draft

variable {s : Schema}

namespace Condition

variable {m n : Model s} {table : TablePath} {d d' e : Draft s} {c c' : Condition s}

/-- Whatever can be built of the first conditions on the model can be built of the second. -/
structure ReplacedBy (m : Model s) (cs cs' : List (Condition s)) : Prop where
  nil_iff : cs = [] ↔ cs' = []
  builds : ∀ table d d' trees e, Twins table m d d' → (buildEach cs table).Runs d trees e →
    ∃ trees' e', (buildEach cs' table).Runs d' trees' e' ∧ GrowAlike d d' e e' ∧
      Predicate.normalizeChildren .and trees = Predicate.normalizeChildren .and trees'

/-! ## Lists of conditions -/

/-- No conditions are replaced by none. -/
theorem replacedBy_nil (m : Model s) : ReplacedBy m [] [] where
  nil_iff := Iff.rfl
  builds := by
    intro table d d' trees e h hrun
    rw [buildEach, runs_pure] at hrun
    rcases hrun with ⟨rfl, rfl⟩
    exact ⟨[], d', by rw [buildEach, runs_pure]; exact ⟨rfl, rfl⟩, .refl h, rfl⟩

/-- One condition is built by itself. -/
theorem runs_buildEach_singleton {trees : List (Predicate Test)} :
    (buildEach [c] table).Runs d trees e ↔
      ∃ t, (build c table).Runs d t e ∧ trees = t.toList := by
  simp only [buildEach, runs_bind, runs_pure]
  constructor
  · rintro ⟨t, _, hrun, _, _, ⟨rfl, rfl⟩, rfl, rfl⟩
    exact ⟨t, hrun, List.append_nil _⟩
  · rintro ⟨t, hrun, rfl⟩
    exact ⟨t, e, hrun, [], e, ⟨rfl, rfl⟩, List.append_nil _, rfl⟩

/-- Conditions one after the other can be replaced each. -/
theorem ReplacedBy.append {xs xs' ys ys' : List (Condition s)} (hxs : ReplacedBy m xs xs')
    (hys : ReplacedBy m ys ys') : ReplacedBy m (xs ++ ys) (xs' ++ ys') where
  nil_iff := by
    rw [List.append_eq_nil_iff, List.append_eq_nil_iff, hxs.nil_iff, hys.nil_iff]
  builds := by
    intro table d d' trees e h hrun
    rcases runs_buildEach_append.1 hrun with ⟨front, d₁, back, hfront, hback, rfl⟩
    rcases hxs.builds table d d' front d₁ h hfront with ⟨front', d₁', hfront', hgrow, hsame⟩
    rcases hys.builds table d₁ d₁' back e (hgrow.twins h) hback with
        ⟨back', e', hback', hgrow', hsame'⟩
    refine ⟨front' ++ back', e', runs_buildEach_append.2 ⟨front', d₁', back', hfront', hback', rfl⟩,
      hgrow.trans hgrow', ?_⟩
    rw [Predicate.normalizeChildren_append, Predicate.normalizeChildren_append, hsame, hsame']

/-- A condition can be replaced by one that makes a tree of the same normal form. -/
theorem replacedBy_of_build (h : ∀ table d d' t e, Twins table m d d' → (build c table).Runs d t e →
      ∃ t' e', (build c' table).Runs d' t' e' ∧ GrowAlike d d' e e' ∧
        t.map Predicate.normalize = t'.map Predicate.normalize) : ReplacedBy m [c] [c'] where
  nil_iff := by simp
  builds := by
    intro table d d' trees e htwins hrun
    rcases runs_buildEach_singleton.1 hrun with ⟨t, hbuild, rfl⟩
    rcases h table d d' t e htwins hbuild with ⟨t', e', hbuild', hgrow, hsame⟩
    refine ⟨t'.toList, e', runs_buildEach_singleton.2 ⟨t', hbuild', rfl⟩, hgrow, ?_⟩
    refine Predicate.normalizeChildren_congr .and ?_
    rw [← Option.toList_map, ← Option.toList_map, hsame]

/-- Trees that add the same to a conjunction have the same conjunction. -/
theorem normalize_all_congr {trees trees' : List (Predicate Test)}
    (h : Predicate.normalizeChildren .and trees = Predicate.normalizeChildren .and trees') :
    (Predicate.all trees).normalize = (Predicate.all trees').normalize := by
  rw [Predicate.all, Predicate.all, Predicate.normalize, Predicate.normalize, h]

/-! ## Tests -/

/-- The conditions test their columns alike. -/
inductive TestsAs (columns columns' : List (Column s)) : Condition s → Condition s → Prop where
  | comparison {rule template : String} {values : List Operand} :
      TestsAs columns columns' (.comparison rule template columns values)
        (.comparison rule template columns' values)
  | presence {rule template : String} :
      TestsAs columns columns' (.presence rule template columns) (.presence rule template columns')
  | membership {rule template : String} {values : Operand} :
      TestsAs columns columns' (.membership rule template columns values)
        (.membership rule template columns' values)
  | range {rule template : String} {low high : Operand} :
      TestsAs columns columns' (.range rule template columns low high)
        (.range rule template columns' low high)
  | overlap {rule template : String} {span : TimeSpan} :
      TestsAs columns columns' (.overlap rule template columns span)
        (.overlap rule template columns' span)

/-- In a test, columns can be replaced by others of the same tables. -/
theorem replacedBy_test {columns columns' : List (Column s)}
    (hcolumns : List.Forall₂ (Column.SameTable m) columns columns')
    (htests : TestsAs columns columns' c c') :
    ReplacedBy m [c] [c'] := by
  refine replacedBy_of_build fun table d d' t e h hrun => ?_
  -- the columns are in the same tables, so both bind the same values behind them
  have hjoin : ∀ {qualified d₁}, (joinColumns table columns).Runs d qualified d₁ →
      ∃ d₁', (joinColumns table columns').Runs d' qualified d₁' ∧ GrowAlike d d' d₁ d₁' ∧
        ∀ values, (d₁'.bindAll values).1 = (d₁.bindAll values).1 ∧
          GrowAlike d d' (d₁.bindAll values).2 (d₁'.bindAll values).2 := by
    intro qualified d₁ hjoined
    rcases runs_joinColumns_alike hcolumns h hjoined with ⟨d₁', hjoined', hgrow⟩
    refine ⟨d₁', hjoined', hgrow, fun values => ?_⟩
    rcases (hgrow.twins h).bindAll values with ⟨hnames, hbound⟩
    exact ⟨hnames, hgrow.trans hbound⟩
  -- each kind of test is taken apart and put together again on the other draft
  cases htests with
  | comparison =>
    rcases runs_comparison_iff.1 hrun with ⟨qualified, d₁, hjoined, rfl, rfl⟩
    rcases hjoin hjoined with ⟨d₁', hjoined', _, hbind⟩
    rcases hbind _ with ⟨hnames, hgrow⟩
    rw [← hnames]
    exact ⟨_, _, runs_comparison_iff.2 ⟨qualified, d₁', hjoined', rfl, rfl⟩, hgrow, rfl⟩
  | presence =>
    rcases runs_presence_iff.1 hrun with ⟨qualified, hjoined, rfl⟩
    rcases hjoin hjoined with ⟨d₁', hjoined', hgrow, _⟩
    exact ⟨_, _, runs_presence_iff.2 ⟨qualified, hjoined', rfl⟩, hgrow, rfl⟩
  | membership =>
    rcases runs_membership_iff.1 hrun with ⟨qualified, d₁, hjoined, rfl, rfl⟩
    rcases hjoin hjoined with ⟨d₁', hjoined', _, hbind⟩
    rcases hbind _ with ⟨hnames, hgrow⟩
    rw [← hnames]
    exact ⟨_, _, runs_membership_iff.2 ⟨qualified, d₁', hjoined', rfl, rfl⟩, hgrow, rfl⟩
  | range =>
    rcases runs_range_iff.1 hrun with ⟨qualified, d₁, hjoined, rfl, rfl⟩
    rcases hjoin hjoined with ⟨d₁', hjoined', _, hbind⟩
    rcases hbind _ with ⟨hnames, hgrow⟩
    rw [← hnames]
    exact ⟨_, _, runs_range_iff.2 ⟨qualified, d₁', hjoined', rfl, rfl⟩, hgrow, rfl⟩
  | overlap =>
    rcases runs_overlap_iff.1 hrun with ⟨qualified, d₁, hjoined, rfl, rfl⟩
    rcases hjoin hjoined with ⟨d₁', hjoined', _, hbind⟩
    rcases hbind _ with ⟨hnames, hgrow⟩
    rw [← hnames]
    exact ⟨_, _, runs_overlap_iff.2 ⟨qualified, d₁', hjoined', rfl, rfl⟩, hgrow, rfl⟩

/-! ## Functions -/

/-- A function does alike to drafts alike if its step does. -/
theorem replacedBy_function {function : FunctionName} {step : TablePath → Build s Unit}
    (hbuild : ∀ table, build c table = do
      atRoot function table (step table)
      return none)
    (hstep : ∀ table d d' e, Twins table m d d' → (step table).Runs d () e →
      ∃ e', (step table).Runs d' () e' ∧ GrowAlike d d' e e') : ReplacedBy m [c] [c] := by
  refine replacedBy_of_build fun table d d' t e h hrun => ?_
  simp only [hbuild, runs_bind, runs_pure, runs_atRoot_iff] at hrun ⊢
  rcases hrun with ⟨_, _, ⟨hroot, hrun⟩, rfl, rfl⟩
  rcases hstep table d d' _ h hrun with ⟨e', hrun', hgrow⟩
  exact ⟨none, e', ⟨(), e', ⟨hroot, hrun'⟩, rfl, rfl⟩, hgrow, rfl⟩

/-! ## Joins -/

/-- Documents can be replaced one by one. -/
theorem buildDocuments_replaced {documents documents' : List (List (Condition s))}
    (hdocuments : List.Forall₂ (ReplacedBy n) documents documents') (h : Twins table n d d')
    {trees : List (Predicate Test)} (hrun : (buildDocuments documents table).Runs d trees e) :
    ∃ trees' e', (buildDocuments documents' table).Runs d' trees' e' ∧ GrowAlike d d' e e' ∧
      trees.map Predicate.normalize = trees'.map Predicate.normalize := by
  induction hdocuments generalizing d d' trees with
  | nil =>
    rw [buildDocuments, runs_pure] at hrun
    rcases hrun with ⟨rfl, rfl⟩
    exact ⟨[], d', by rw [buildDocuments, runs_pure]; exact ⟨rfl, rfl⟩, .refl h, rfl⟩
  | @cons document document' documents documents' hfirst _ ih =>
    rcases runs_buildDocuments_cons_iff.1 hrun with ⟨first, d₁, rest, hdocument, hrest, rfl⟩
    rcases hfirst.builds table d d' first d₁ h hdocument with
        ⟨first', d₁', hdocument', hgrow, hsame⟩
    rcases ih (hgrow.twins h) hrest with ⟨rest', e', hrest', hgrow', hsame'⟩
    refine ⟨_, e', runs_buildDocuments_cons_iff.2 ⟨first', d₁', rest', hdocument', hrest', rfl⟩,
      hgrow.trans hgrow', ?_⟩
    rw [List.map_cons, List.map_cons, normalize_all_congr hsame, hsame']

/-- The documents about the rows of a column are replaced. -/
def JoinReplaced (m : Model s) (t t' : Target s (List (List (Condition s)))) : Prop :=
  t'.column = t.column ∧
    ∀ n, t.column.LeadsToRows m n → List.Forall₂ (ReplacedBy n) t.nested t'.nested

/-- So can the targets of a relation join. -/
theorem buildJoins_replaced {within : Connective}
    {targets targets' : List (Target s (List (List (Condition s))))}
    (htargets : List.Forall₂ (JoinReplaced m) targets targets')
    (reached : ∀ t ∈ targets, ∃ target, t.column.LeadsToRows m target) (h : Twins table m d d')
    {trees : List (Predicate Test)} (hrun : (buildJoins within targets table).Runs d trees e) :
    ∃ trees' e', (buildJoins within targets' table).Runs d' trees' e' ∧ GrowAlike d d' e e' ∧
      trees.map Predicate.normalize = trees'.map Predicate.normalize := by
  induction htargets generalizing d d' trees with
  | nil =>
    rw [buildJoins, runs_pure] at hrun
    rcases hrun with ⟨rfl, rfl⟩
    exact ⟨[], d', by rw [buildJoins, runs_pure]; exact ⟨rfl, rfl⟩, .refl h, rfl⟩
  | @cons target target' targets targets' hfirst _ ih =>
    rcases reached target List.mem_cons_self with ⟨n, hrows⟩
    rcases target with ⟨column, documents⟩
    rcases target' with ⟨column', documents'⟩
    rcases hfirst with ⟨hcolumn, hdocuments⟩
    have hsameColumn : column' = column := hcolumn
    subst hsameColumn
    rcases runs_buildJoins_cons_iff.1 hrun with
      ⟨path, d₂, docs, d₁, rest, hpath, hdocs, hrest, rfl⟩
    rcases runs_joinRelation_alike hrows h hpath with ⟨d₂', hpath', hgrow, hinner⟩
    rcases buildDocuments_replaced (hdocuments n hrows) hinner hdocs with
        ⟨docs', d₁', hdocs', hgrow', hsame⟩
    -- the table of the targets is there after the documents
    have hboth := hgrow.trans hgrow'
    rcases ih (fun t ht => reached t (List.mem_cons_of_mem _ ht)) (hboth.twins h) hrest with
        ⟨rest', e', hrest', hgrow'', hsame'⟩
    refine ⟨_, e', runs_buildJoins_cons_iff.2
      ⟨path, d₂', docs', d₁', rest', hpath', hdocs', hrest', rfl⟩, hboth.trans hgrow'', ?_⟩
    have hchildren := Predicate.normalizeChildren_congr within hsame
    rw [List.map_cons, List.map_cons, hsame', Predicate.normalize, Predicate.normalize, hchildren]

/-- Documents about related rows can be replaced in a join. -/
theorem replacedBy_relationJoin {targets targets' : List (Target s (List (List (Condition s))))}
    (htargets : List.Forall₂ (JoinReplaced m) targets targets')
    (reached : ∀ t ∈ targets, ∃ target, t.column.LeadsToRows m target) :
    ReplacedBy m [.relationJoin targets] [.relationJoin targets'] := by
  have hcount : documentCount targets' = documentCount targets := by
    cases htargets with
    | nil => rfl
    | cons hfirst _ =>
      rcases reached _ List.mem_cons_self with ⟨n, hrows⟩
      exact (hfirst.2 n hrows).length_eq.symm
  refine replacedBy_of_build fun table d d' t e h hrun => ?_
  rcases runs_relationJoin_iff.1 hrun with ⟨trees, hjoins, rfl⟩
  rcases buildJoins_replaced htargets reached h hjoins with ⟨trees', e', hjoins', hgrow, hsame⟩
  rw [← hcount] at hjoins'
  refine ⟨_, e', runs_relationJoin_iff.2 ⟨trees', hjoins', rfl⟩, hgrow, ?_⟩
  rw [hcount]
  have hchildren := Predicate.normalizeChildren_congr (acrossRelations (documentCount targets)) hsame
  rw [Option.map_some, Option.map_some, Predicate.normalize, Predicate.normalize, hchildren]

/-! ## Selections -/

/-- The document about the rows of a selected relation is replaced. -/
def SelectReplaced (m : Model s) (t t' : Target s (List (Condition s))) : Prop :=
  t'.column = t.column ∧ (t.nested = [] ↔ t'.nested = []) ∧
    ∀ r, t.column.LeadsToRelation m r → ReplacedBy r.target t.nested t'.nested

/-- A selection gives a tree of the same normal form. -/
theorem buildSelect_replaced {target target' : Target s (List (Condition s))}
    (htarget : SelectReplaced m target target')
    (reached : (target.column.LeadsToColumn m ∧ target.nested = []) ∨
      target.column.isColumn = false ∧ ∃ r, target.column.LeadsToRelation m r)
    (h : Twins table m d d') {tree : Option (Predicate Test)}
    (hrun : (buildSelect target table).Runs d tree e) :
    ∃ tree' e', (buildSelect target' table).Runs d' tree' e' ∧ GrowAlike d d' e e' ∧
      tree.map Predicate.normalize = tree'.map Predicate.normalize := by
  rcases target with ⟨column, conditions⟩
  rcases target' with ⟨column', conditions'⟩
  rcases htarget with ⟨hcolumn, hnil, hnested⟩
  have hsameColumn : column' = column := hcolumn
  subst hsameColumn
  rcases reached with ⟨hcolumn, _⟩ | ⟨hcolumn, r, hr⟩
  · -- a column is selected without a document
    rcases (runs_buildSelect_column_iff hcolumn.isColumn_eq).1 hrun with
      ⟨path, d₁, hjoined, rfl, rfl⟩
    rcases runs_selectColumn_alike hcolumn h hjoined with ⟨d₁', hjoined', hgrow⟩
    exact ⟨none, _, (runs_buildSelect_column_iff hcolumn.isColumn_eq).2
      ⟨path, d₁', hjoined', rfl, rfl⟩, hgrow, rfl⟩
  · rcases (runs_buildSelect_relation_iff hcolumn).1 hrun with
      ⟨d₁, hinclude, ⟨hnone, rfl, rfl⟩ | ⟨hsome, path, d₂, trees, hpath, hconditions, rfl⟩⟩
    · rcases runs_includeRelation_alike h hinclude with ⟨d₁', hinclude', hgrow⟩
      exact ⟨none, d₁', (runs_buildSelect_relation_iff hcolumn).2
        ⟨d₁', hinclude', .inl ⟨hnil.1 hnone, rfl, rfl⟩⟩, hgrow, rfl⟩
    · rcases runs_includeRelation_alike h hinclude with ⟨d₁', hinclude', hgrow⟩
      rcases runs_joinRelation_alike (.inr ⟨r, hr, rfl⟩) (hgrow.twins h) hpath with
          ⟨d₂', hpath', hgrow', hinner⟩
      rcases (hnested r hr).builds _ _ _ _ _ hinner hconditions with
          ⟨trees', e', hconditions', hgrow'', hsame⟩
      refine ⟨some (.all trees'), e', (runs_buildSelect_relation_iff hcolumn).2
        ⟨d₁', hinclude', .inr ⟨mt hnil.2 hsome, path, d₂', trees', hpath', hconditions', rfl⟩⟩,
        (hgrow.trans hgrow').trans hgrow'', ?_⟩
      rw [Option.map_some, Option.map_some, normalize_all_congr hsame]

/-- So do all targets of a selection. -/
theorem buildSelects_replaced {targets targets' : List (Target s (List (Condition s)))}
    (htargets : List.Forall₂ (SelectReplaced m) targets targets')
    (reached : ∀ t ∈ targets, (t.column.LeadsToColumn m ∧ t.nested = []) ∨
      t.column.isColumn = false ∧ ∃ r, t.column.LeadsToRelation m r)
    (h : Twins table m d d') {trees : List (Predicate Test)}
    (hrun : (buildSelects targets table).Runs d trees e) :
    ∃ trees' e', (buildSelects targets' table).Runs d' trees' e' ∧ GrowAlike d d' e e' ∧
      trees.map Predicate.normalize = trees'.map Predicate.normalize := by
  induction htargets generalizing d d' trees with
  | nil =>
    rw [buildSelects, runs_pure] at hrun
    rcases hrun with ⟨rfl, rfl⟩
    exact ⟨[], d', by rw [buildSelects, runs_pure]; exact ⟨rfl, rfl⟩, .refl h, rfl⟩
  | @cons target target' targets targets' hfirst _ ih =>
    rcases runs_buildSelects_cons_iff.1 hrun with ⟨tree, d₁, rest, hselect, hrest, rfl⟩
    rcases buildSelect_replaced hfirst (reached target List.mem_cons_self) h hselect with
        ⟨tree', d₁', hselect', hgrow, hsame⟩
    rcases ih (fun t ht => reached t (List.mem_cons_of_mem _ ht)) (hgrow.twins h) hrest with
        ⟨rest', e', hrest', hgrow', hsame'⟩
    refine ⟨_, e', runs_buildSelects_cons_iff.2 ⟨tree', d₁', rest', hselect', hrest', rfl⟩,
      hgrow.trans hgrow', ?_⟩
    rw [List.map_append, List.map_append, ← Option.toList_map, ← Option.toList_map, hsame, hsame']

/-- Documents about the rows of selected relations can be replaced. -/
theorem replacedBy_select {targets targets' : List (Target s (List (Condition s)))}
    (htargets : List.Forall₂ (SelectReplaced m) targets targets')
    (reached : ∀ t ∈ targets, (t.column.LeadsToColumn m ∧ t.nested = []) ∨
      t.column.isColumn = false ∧ ∃ r, t.column.LeadsToRelation m r) :
    ReplacedBy m [.select targets] [.select targets'] := by
  refine replacedBy_of_build fun table d d' t e h hrun => ?_
  rcases runs_select_iff.1 hrun with ⟨trees, hselects, rfl⟩
  rcases buildSelects_replaced htargets reached h hselects with ⟨trees', e', hselects', hgrow, hsame⟩
  refine ⟨_, e', runs_select_iff.2 ⟨trees', hselects', rfl⟩, hgrow, ?_⟩
  -- whether the selection tests anything is the same for both
  have hempty : trees'.isEmpty = trees.isEmpty := by
    rw [← List.isEmpty_map (f := Predicate.normalize), ← hsame, List.isEmpty_map]
  rw [hempty]
  by_cases hnone : trees.isEmpty = true
  · rw [if_pos hnone, if_pos hnone]
  · rw [if_neg hnone, if_neg hnone, Option.map_some, Option.map_some,
      normalize_all_congr (Predicate.normalizeChildren_congr .and hsame)]

/-! ## Sub-queries -/

/-- Whatever a sub-query tests, the same test ties it to the row of its parent. -/
theorem correlate_replaced {relation : Relation s} {a : String} {built built' done : Draft s}
    {trees trees' : List (Predicate Test)} {base : TablePath} (h : Twins base m built built')
    (hbase : built.base = base) (hstart : built.predicate = .all [])
    (hsame : Predicate.normalizeChildren .and trees = Predicate.normalizeChildren .and trees')
    (hrun : (correlate relation a).Runs (built.pushWhere (.all trees)) () done) :
    ∃ done' p f, (correlate relation a).Runs (built'.pushWhere (.all trees')) () done' ∧
      done' = (done.withPredicate p).withTables f ∧ done.predicate.normalize = p.normalize := by
  rcases runs_correlate_iff.1 hrun with ⟨test, tied, htest, rfl⟩
  have hblind := blind_correlation relation a
  -- the test is made on the same tables with the other WHERE clause
  have htest' := hblind (built.predicate.push (.all trees')) _ _ _ htest
  have halike : (built.pushWhere (.all trees')).Alike (built'.pushWhere (.all trees')) :=
    h.alike.clause (g := fun d => d.pushWhere (.all trees')) fun _ => rfl
  rcases h.aliasAt?_joined with ⟨b, hb, hb'⟩
  rw [← hbase] at hb hb'
  rcases runs_correlation_alike halike hb hb' htest' with ⟨tied', hrun', hrest⟩
  refine ⟨tied'.pushWhere test, (built.predicate.push (.all trees')).push test, tied',
    runs_correlate_iff.2 ⟨test, tied', hrun', rfl⟩, ?_, ?_⟩
  · rw [hrest]
    rfl
  · have hmembers : [Predicate.all trees, test].map Predicate.normalize =
        [Predicate.all trees', test].map Predicate.normalize := by
      simp only [List.map_cons, List.map_nil, normalize_all_congr hsame]
    show (tied.predicate.push test).normalize = _
    rw [hblind.predicate_eq htest, pushWhere, hstart]
    exact normalize_all_congr (Predicate.normalizeChildren_congr .and hmembers)

/-- The sub-query of a derived table and the conditions on its row can be replaced. -/
theorem replacedBy_derivedJoin {column : Column s} {relation : Relation s}
    {subquery subquery' conditions conditions' : List (Condition s)} (howner : relation.owner = m)
    (hsubquery : ReplacedBy relation.target subquery subquery')
    (hconditions : ReplacedBy relation.target conditions conditions') :
    ReplacedBy m [.derivedJoin column relation subquery conditions]
      [.derivedJoin column relation subquery' conditions'] := by
  subst howner
  refine replacedBy_of_build fun table d d' t e h hrun => ?_
  rcases (runs_derivedJoin_iff h.ready).1 hrun with
      ⟨a, trees, built, done, rtrees, ha, hsub, hcorrelate, hnested, rfl⟩
  have ha' : d'.aliasAt? table = some a := by
    rcases h.aliasAt?_joined with ⟨b, hb, hb'⟩
    rw [ha] at hb
    rwa [← hb] at hb'
  -- the sub-query has a draft of its own, which is the same in both
  have hinner : Twins (.root relation.target.table) relation.target
      (d.nestedDraft (derivedPath d table relation.name) relation.target)
      (d.nestedDraft (derivedPath d table relation.name) relation.target) :=
    .of_ready (ready_withBase _ _ _ _ _) (bridged_withBase _ _ _ _ _)
  rcases hsubquery.builds _ _ _ _ _ hinner hsub with ⟨trees', built', hsub', hgrow, hsame⟩
  rcases correlate_replaced (hgrow.twins hinner) hgrow.grown.steady.base hgrow.grown.steady.predicate
    hsame hcorrelate with ⟨done', p, f, hcorrelate', hdone', hclauses⟩
  have hembed : d'.embed (derivedPath d table relation.name) relation.target done' =
      d'.embed (derivedPath d table relation.name) relation.target done := by
    rw [hdone', embed_withTables]
    exact (embed_withPredicate hclauses d' _ relation.target done).symm
  -- the conditions on its row are built at the same path
  rcases growAlike_embed h relation.name relation.target done with ⟨hgrow', hrows⟩
  rcases hconditions.builds _ _ _ _ _ hrows hnested with ⟨rtrees', e', hnested', hgrow'', hsame'⟩
  refine ⟨some (.all rtrees'), e', (runs_derivedJoin_iff h.ready').2
    ⟨a, trees', built', done', rtrees', ha', ?_, hcorrelate', ?_, rfl⟩, hgrow'.trans hgrow'', ?_⟩
  · rw [h.alike.derivedPath_eq, h.alike.nestedDraft_eq]
    exact hsub'
  · rw [h.alike.derivedPath_eq, hembed]
    exact hnested'
  · rw [Option.map_some, Option.map_some, normalize_all_congr hsame']

/-! ## Conditions that stay -/

mutual

/-- A condition can be replaced by itself. -/
theorem replacedBy_self : ∀ c : Condition s, ∀ m, c.Admitted m → ReplacedBy m [c] [c]
  | .comparison rule template columns values, m, .comparison reached =>
    replacedBy_test (List.forall₂_same.2 fun c hc => .refl (reached c hc)) .comparison
  | .presence rule template columns, m, .presence reached =>
    replacedBy_test (List.forall₂_same.2 fun c hc => .refl (reached c hc)) .presence
  | .membership rule template columns values, m, .membership reached =>
    replacedBy_test (List.forall₂_same.2 fun c hc => .refl (reached c hc)) .membership
  | .range rule template columns low high, m, .range reached =>
    replacedBy_test (List.forall₂_same.2 fun c hc => .refl (reached c hc)) .range
  | .overlap rule template columns span, m, .overlap reached =>
    replacedBy_test (List.forall₂_same.2 fun c hc => .refl (reached c hc)) .overlap
  -- what is nested is replaced by itself, by induction
  | .relationJoin targets, m, .relationJoin reached nested =>
    replacedBy_relationJoin (joinReplaced_self targets m nested) reached
  | .derivedJoin column relation subquery conditions, m, .derivedJoin own _ reached rows nested =>
    replacedBy_derivedJoin (reached.resolved_owner own).2 (replacedBy_each subquery relation.target rows)
      (replacedBy_each conditions relation.target nested)
  | .select targets, m, .select reached nested =>
    replacedBy_select (selectReplaced_self targets m nested) reached
  | .order entries, m, .order reached =>
    replacedBy_function (fun _ => rfl) fun _ _ _ _ h hrun => runs_orderBy_alike reached h hrun
  | .limit n, m, _ => by
    refine replacedBy_function (fun _ => rfl) fun table d d' e h hrun => ?_
    rw [runs_modify] at hrun
    subst hrun
    have halike := h.alike.clause (g := fun d => d.setLimit n) fun _ => rfl
    exact ⟨_, runs_modify.2 rfl, .clause h halike (.limit n) (.limit n)⟩
  | .offset n, m, _ => by
    refine replacedBy_function (fun _ => rfl) fun table d d' e h hrun => ?_
    rw [runs_modify] at hrun
    subst hrun
    have halike := h.alike.clause (g := fun d => d.setOffset n) fun _ => rfl
    exact ⟨_, runs_modify.2 rfl, .clause h halike (.offset n) (.offset n)⟩

/-- Conditions whose names lead somewhere are built alike on drafts alike. -/
theorem replacedBy_each : ∀ cs : List (Condition s), ∀ m, (∀ c ∈ cs, c.Admitted m) → ReplacedBy m cs cs
  | [], m, _ => replacedBy_nil m
  | c :: cs, m, admitted =>
    (replacedBy_self c m (admitted c List.mem_cons_self)).append
      (replacedBy_each cs m fun c hc => admitted c (List.mem_cons_of_mem _ hc))

/-- So can each of several documents. -/
theorem replacedBy_documents : ∀ documents : List (List (Condition s)), ∀ n,
    (∀ document ∈ documents, ∀ c ∈ document, c.Admitted n) →
    List.Forall₂ (ReplacedBy n) documents documents
  | [], _, _ => .nil
  | document :: documents, n, admitted =>
    .cons (replacedBy_each document n (admitted document List.mem_cons_self))
      (replacedBy_documents documents n fun document hdocument =>
        admitted document (List.mem_cons_of_mem _ hdocument))

/-- So can the targets of a relation join. -/
theorem joinReplaced_self : ∀ targets : List (Target s (List (List (Condition s)))), ∀ m,
    (∀ t ∈ targets, ∀ target, t.column.LeadsToRows m target →
      ∀ document ∈ t.nested, ∀ c ∈ document, c.Admitted target) →
    List.Forall₂ (JoinReplaced m) targets targets
  | [], _, _ => .nil
  | ⟨_, documents⟩ :: targets, m, nested =>
    .cons ⟨rfl, fun n hrows => replacedBy_documents documents n (nested _ List.mem_cons_self n hrows)⟩
      (joinReplaced_self targets m fun t ht => nested t (List.mem_cons_of_mem _ ht))

/-- So can the targets of a selection. -/
theorem selectReplaced_self : ∀ targets : List (Target s (List (Condition s))), ∀ m,
    (∀ t ∈ targets, ∀ r, t.column.LeadsToRelation m r → ∀ c ∈ t.nested, c.Admitted r.target) →
    List.Forall₂ (SelectReplaced m) targets targets
  | [], _, _ => .nil
  | ⟨_, conditions⟩ :: targets, m, nested =>
    .cons ⟨rfl, Iff.rfl, fun r hr =>
        replacedBy_each conditions r.target (nested _ List.mem_cons_self r hr)⟩
      (selectReplaced_self targets m fun t ht => nested t (List.mem_cons_of_mem _ ht))

end

/-- It is enough that the other conditions can be built on the same draft. -/
theorem replacedBy_of_sameDraft {cs cs' : List (Condition s)} (hnil : cs = [] ↔ cs' = [])
    (admitted : ∀ c ∈ cs, c.Admitted m)
    (hbuilds : ∀ table d trees e, d.Ready table m → (buildEach cs table).Runs d trees e →
      ∃ trees', (buildEach cs' table).Runs d trees' e ∧
        Predicate.normalizeChildren .and trees = Predicate.normalizeChildren .and trees') :
    ReplacedBy m cs cs' where
  nil_iff := hnil
  builds := by
    intro table d d' trees e h hrun
    -- first the same conditions on the other draft, then the others on the same draft
    rcases (replacedBy_each cs m admitted).builds table d d' trees e h hrun with
        ⟨_, e', hrun', hgrow, hsame⟩
    rcases hbuilds table d' _ e' h.ready' hrun' with ⟨trees', hrun'', hsame'⟩
    exact ⟨trees', e', hrun'', hgrow, hsame.trans hsame'⟩

end Condition

end DocQuery
