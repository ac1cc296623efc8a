import DocQuery.Condition.Build

namespace DocQuery

/-! # Successful runs

`step.Runs d a d'` says that the step succeeds on the draft `d`, gives `a` and leaves `d'`. The
lemmas take a run of a compound step apart into runs of its parts, so that proofs about a build
never open the monad.

* `runs_bind`: a run of a compound step is a run of its first part and one of the rest.
* `runs_test_iff`: what each kind of condition does, by its parts; and so for each form of
  condition.
* `runs_buildEach_append`: conditions one behind the other are built one behind the other.
-/

namespace Build

variable {s : Schema} {α β : Type} {d d' : Draft s}

/-- The step succeeds on `d` with the result `a` and leaves `d'`. -/
def Runs (step : Build s α) (d : Draft s) (a : α) (d' : Draft s) : Prop :=
  step.runOn d = (.ok a, d')

/-- A step has one run from a draft. -/
theorem Runs.unique {step : Build s α} {a a' : α} {e e' : Draft s} (h : step.Runs d a e)
    (h' : step.Runs d a' e') : a = a' ∧ e = e' := by
  cases h.symm.trans h'
  exact ⟨rfl, rfl⟩

/-- A compound step goes on from the draft that its first part leaves, unless that fails. -/
theorem runOn_bind (step : Build s α) (next : α → Build s β) (d : Draft s) :
    Build.runOn (step >>= next) d =
      match step.runOn d with
      | (.ok a, d') => (next a).runOn d'
      | (.error e, d') => (.error e, d') := by
  show (ExceptT.run step >>= fun x => ExceptT.bindCont next x) d = _
  simp only [bind, StateT.bind, Build.runOn, StateT.run, ExceptT.run]
  cases step d with
  | mk result d' =>
    cases result with
    | ok a => rfl
    | error e => rfl

@[simp] theorem runs_pure {a b : α} :
    Build.Runs (pure a : Build s α) d b d' ↔ a = b ∧ d = d' := by
  constructor
  · intro h
    cases h
    exact ⟨rfl, rfl⟩
  · rintro ⟨rfl, rfl⟩
    rfl

/-- A compound step succeeds if its parts do, one after the other. -/
@[simp] theorem runs_bind {step : Build s α} {next : α → Build s β} {b : β} :
    Build.Runs (step >>= next) d b d' ↔ ∃ a e, step.Runs d a e ∧ (next a).Runs e b d' := by
  unfold Runs
  rw [runOn_bind]
  rcases step.runOn d with ⟨_ | a, e⟩
  · simp
  · constructor
    · intro h
      exact ⟨a, e, rfl, h⟩
    · rintro ⟨a', e', h, hnext⟩
      cases h
      exact hnext

@[simp] theorem runs_throw {e : Error} {a : α} :
    ¬Build.Runs (throw e : Build s α) d a d' := by
  intro h
  cases h

@[simp] theorem runs_get {a : Draft s} :
    Build.Runs (get : Build s (Draft s)) d a d' ↔ d = a ∧ d = d' := by
  constructor
  · intro h
    cases h
    exact ⟨rfl, rfl⟩
  · rintro ⟨rfl, rfl⟩
    rfl

@[simp] theorem runs_modify {f : Draft s → Draft s} {u : PUnit} :
    Build.Runs (modify f : Build s PUnit) d u d' ↔ f d = d' := by
  constructor
  · intro h
    cases h
    rfl
  · rintro rfl
    rfl

@[simp] theorem runs_modifyGet {f : Draft s → α × Draft s} {a : α} :
    Build.Runs (modifyGet f : Build s α) d a d' ↔ (f d).1 = a ∧ (f d).2 = d' := by
  constructor
  · intro h
    cases h
    exact ⟨rfl, rfl⟩
  · rintro ⟨rfl, rfl⟩
    rfl

/-- A step on a draft of its own leaves the outer draft alone. -/
@[simp] theorem runs_within {sub : Draft s} {step : Build s α} {r : α × Draft s} :
    (Build.within sub step).Runs d r d' ↔ step.Runs sub r.1 r.2 ∧ d = d' := by
  unfold within Runs
  rcases step.runOn sub with ⟨_ | a, sub'⟩
  · simp only [Prod.mk.injEq, reduceCtorEq, false_and, iff_false]
    exact runs_throw
  · rcases r with ⟨b, sub''⟩
    refine runs_pure.trans ?_
    simp only [Prod.mk.injEq, Except.ok.injEq]

end Build

namespace Condition

open Build

variable {s : Schema} {d e : Draft s} {table : TablePath} {t : Option (Predicate Test)}
variable {rule template : String} {columns : List (Column s)}

/-! ## Columns and relations taken apart -/

/-- The first column is joined and named, then the others are. -/
theorem runs_joinColumns_cons_iff {column : Column s} {qualified : List QualifiedColumn} :
    (joinColumns table (column :: columns)).Runs d qualified e ↔
      ∃ path d₁ rest, (Draft.joinColumn table column).Runs d path d₁ ∧
        (joinColumns table columns).Runs (d₁.columnAt path (column.name.getD "")).2 rest e ∧
        qualified = (d₁.columnAt path (column.name.getD "")).1 :: rest := by
  simp only [joinColumns, runs_bind, runs_modifyGet, runs_pure]
  constructor
  · rintro ⟨path, d₁, hcolumn, _, _, ⟨rfl, rfl⟩, rest, _, hrest, rfl, rfl⟩
    exact ⟨path, d₁, rest, hcolumn, hrest, rfl⟩
  · rintro ⟨path, d₁, rest, hcolumn, hrest, rfl⟩
    exact ⟨path, d₁, hcolumn, _, _, ⟨rfl, rfl⟩, rest, e, hrest, rfl, rfl⟩

/-- The first entry is joined and ordered by, then the others are. -/
theorem runs_orderBy_cons_iff {column : Column s} {direction : Direction}
    {entries : List (Column s × Direction)} {u : Unit} :
    (orderBy table ((column, direction) :: entries)).Runs d u e ↔
      ∃ path d₁, (Draft.joinColumn table column).Runs d path d₁ ∧
        (orderBy table entries).Runs (d₁.addOrder path (column.name.getD "") direction) u e := by
  simp only [orderBy, runs_bind, runs_modify]
  constructor
  · rintro ⟨path, d₁, hcolumn, _, _, rfl, hrest⟩
    exact ⟨path, d₁, hcolumn, hrest⟩
  · rintro ⟨path, d₁, hcolumn, hrest⟩
    exact ⟨path, d₁, hcolumn, (), _, rfl, hrest⟩

/-- Every prefix of the path is added to the includes, in order. -/
theorem runs_includeHops_iff {hops : List (Hop s)} {u : Unit} :
    (includeHops table hops).Runs d u e ↔
      e = (hops.map fun hop => table.join hop.path).foldl Draft.addInclude d := by
  induction hops generalizing d with
  | nil => simp [includeHops, eq_comm]
  | cons hop hops ih => simp [includeHops, ih]

/-- Relations are asked for on the way and at its end, and nothing else changes. -/
theorem runs_includeRelation_iff {column : Column s} {u : Unit} :
    (includeRelation table column).Runs d u e ↔ column.hops.2 = none ∧
      e = ((column.hops.1.map fun hop => table.join hop.path) ++
        [table.join column.segments]).foldl Draft.addInclude d := by
  unfold includeRelation
  rcases column.hops with ⟨hops, error⟩
  cases error with
  | none => simp [runs_includeHops_iff, eq_comm]
  | some error => simp

/-! ## Conditions taken apart

One lemma for each kind of condition says what a run that builds it does.
-/

/-- The tables of the columns are joined and the values bound; the tests are made of both. -/
theorem runs_test_iff {values : List Operand}
    (combine : List QualifiedColumn → List String → Predicate Test) :
    Build.Runs (do
        let qualified ← joinColumns table columns
        let params ← modifyGet (·.bindAll values)
        return some (combine qualified params)) d t e ↔
      ∃ qualified d₁, (joinColumns table columns).Runs d qualified d₁ ∧
        t = some (combine qualified (d₁.bindAll values).1) ∧ e = (d₁.bindAll values).2 := by
  simp only [runs_bind, runs_modifyGet, runs_pure]
  constructor
  · rintro ⟨qualified, d₁, hcolumns, _, _, ⟨rfl, rfl⟩, rfl, rfl⟩
    exact ⟨qualified, d₁, hcolumns, rfl, rfl⟩
  · rintro ⟨qualified, d₁, hcolumns, rfl, rfl⟩
    exact ⟨qualified, d₁, hcolumns, _, _, ⟨rfl, rfl⟩, rfl, rfl⟩

/-- A comparison joins its columns, binds its values and tests each column with all of them. -/
theorem runs_comparison_iff {values : List Operand} :
    (build (.comparison rule template columns values) table).Runs d t e ↔
      ∃ qualified d₁, (joinColumns table columns).Runs d qualified d₁ ∧
        t = some (comparisonTree template qualified (d₁.bindAll values).1) ∧
        e = (d₁.bindAll values).2 := by
  exact runs_test_iff _

/-- A test of presence joins its columns and binds nothing. -/
theorem runs_presence_iff :
    (build (.presence rule template columns) table).Runs d t e ↔
      ∃ qualified, (joinColumns table columns).Runs d qualified e ∧
        t = some (.any (eachColumn template qualified [])) := by
  refine runs_bind.trans ?_
  simp only [runs_pure]
  constructor
  · rintro ⟨qualified, _, hcolumns, rfl, rfl⟩
    exact ⟨qualified, hcolumns, rfl⟩
  · rintro ⟨qualified, hcolumns, rfl⟩
    exact ⟨qualified, e, hcolumns, rfl, rfl⟩

/-- A membership test binds the whole list as one value. -/
theorem runs_membership_iff {values : Operand} :
    (build (.membership rule template columns values) table).Runs d t e ↔
      ∃ qualified d₁, (joinColumns table columns).Runs d qualified d₁ ∧
        t = some (.all (eachColumn template qualified (d₁.bindAll [values]).1)) ∧
        e = (d₁.bindAll [values]).2 := by
  refine runs_bind.trans ?_
  simp only [runs_bind, runs_modifyGet, runs_pure]
  constructor
  · rintro ⟨qualified, d₁, hcolumns, _, _, ⟨rfl, rfl⟩, rfl, rfl⟩
    exact ⟨qualified, d₁, hcolumns, rfl, rfl⟩
  · rintro ⟨qualified, d₁, hcolumns, rfl, rfl⟩
    exact ⟨qualified, d₁, hcolumns, _, _, ⟨rfl, rfl⟩, rfl, rfl⟩

/-- A range binds its two ends, whatever the columns. -/
theorem runs_range_iff {low high : Operand} :
    (build (.range rule template columns low high) table).Runs d t e ↔
      ∃ qualified d₁, (joinColumns table columns).Runs d qualified d₁ ∧
        t = some (.all (eachColumn template qualified (d₁.bindAll [low, high]).1)) ∧
        e = (d₁.bindAll [low, high]).2 := by
  exact runs_test_iff _

/-- An overlap binds the ends of its span and tests the columns in pairs. -/
theorem runs_overlap_iff {span : TimeSpan} :
    (build (.overlap rule template columns span) table).Runs d t e ↔
      ∃ qualified d₁, (joinColumns table columns).Runs d qualified d₁ ∧
        t = some (.any (eachPair template
          (d₁.bindAll [.instant span.start, .instant span.stop]).1 qualified)) ∧
        e = (d₁.bindAll [.instant span.start, .instant span.stop]).2 := by
  exact runs_test_iff fun qualified params => .any (eachPair template params qualified)

/-- The documents of all targets are built before they are joined by a connective. -/
theorem runs_relationJoin_iff {targets : List (Target s (List (List (Condition s))))} :
    (build (.relationJoin targets) table).Runs d t e ↔
      ∃ trees, (buildJoins (withinRelation (documentCount targets)) targets table).Runs d trees e ∧
        t = some (.node (acrossRelations (documentCount targets)) trees) := by
  refine runs_bind.trans ?_
  simp only [runs_pure]
  constructor
  · rintro ⟨trees, _, hjoins, rfl, rfl⟩
    exact ⟨trees, hjoins, rfl⟩
  · rintro ⟨trees, hjoins, rfl⟩
    exact ⟨trees, e, hjoins, rfl, rfl⟩

/-- A selection gives a tree only if one of its targets has conditions. -/
theorem runs_select_iff {targets : List (Target s (List (Condition s)))} :
    (build (.select targets) table).Runs d t e ↔
      ∃ trees, (buildSelects targets table).Runs d trees e ∧
        t = if trees.isEmpty then none else some (.all trees) := by
  refine runs_bind.trans ?_
  simp only [runs_pure]
  constructor
  · rintro ⟨trees, _, hselects, rfl, rfl⟩
    exact ⟨trees, hselects, rfl⟩
  · rintro ⟨trees, hselects, rfl⟩
    exact ⟨trees, e, hselects, rfl, rfl⟩

/-- A step for the root runs only there. -/
theorem runs_atRoot_iff {function : FunctionName} {step : Build s Unit} {u : Unit} :
    (atRoot function table step).Runs d u e ↔ table.isRoot = true ∧ step.Runs d u e := by
  unfold atRoot
  split
  · rename_i hroot
    simp only [hroot, true_and]
  · rename_i hbelow
    constructor
    · intro hrun
      exact absurd hrun runs_throw
    · rintro ⟨hroot, _⟩
      exact absurd hroot hbelow

/-- An order is read at the root and tests nothing. -/
theorem runs_order_iff {entries : List (Column s × Direction)} :
    (build (.order entries) table).Runs d t e ↔
      table.isRoot = true ∧ (orderBy table entries).Runs d () e ∧ t = none := by
  refine runs_bind.trans ?_
  simp only [runs_pure, runs_atRoot_iff]
  constructor
  · rintro ⟨_, _, ⟨hroot, horder⟩, rfl, rfl⟩
    exact ⟨hroot, horder, rfl⟩
  · rintro ⟨hroot, horder, rfl⟩
    exact ⟨(), e, ⟨hroot, horder⟩, rfl, rfl⟩

/-- A function that sets one clause of the draft runs only for the root. -/
theorem runs_clause_iff {function : FunctionName} {set : Draft s → Draft s} :
    Build.Runs (do
        atRoot function table (modify set)
        return (none : Option (Predicate Test))) d t e ↔
      table.isRoot = true ∧ t = none ∧ e = set d := by
  refine runs_bind.trans ?_
  simp only [runs_pure, runs_atRoot_iff, runs_modify]
  constructor
  · rintro ⟨_, _, ⟨hroot, rfl⟩, rfl, rfl⟩
    exact ⟨hroot, rfl, rfl⟩
  · rintro ⟨hroot, rfl, rfl⟩
    exact ⟨(), _, ⟨hroot, rfl⟩, rfl, rfl⟩

/-! ## Lists taken apart -/

/-- Conditions are built in order, and those without a tree leave none. -/
theorem runs_buildEach_cons_iff {condition : Condition s} {conditions : List (Condition s)}
    {trees : List (Predicate Test)} :
    (buildEach (condition :: conditions) table).Runs d trees e ↔
      ∃ tree d₁ rest, (build condition table).Runs d tree d₁ ∧
        (buildEach conditions table).Runs d₁ rest e ∧ trees = tree.toList ++ rest := by
  refine runs_bind.trans ?_
  simp only [runs_bind, runs_pure]
  constructor
  · rintro ⟨tree, d₁, hfirst, rest, _, hrest, rfl, rfl⟩
    exact ⟨tree, d₁, rest, hfirst, hrest, rfl⟩
  · rintro ⟨tree, d₁, rest, hfirst, hrest, rfl⟩
    exact ⟨tree, d₁, hfirst, rest, e, hrest, rfl, rfl⟩

/-- Each document is one tree, also if it is empty. -/
theorem runs_buildDocuments_cons_iff {document : List (Condition s)}
    {documents : List (List (Condition s))} {trees : List (Predicate Test)} :
    (buildDocuments (document :: documents) table).Runs d trees e ↔
      ∃ first d₁ rest, (buildEach document table).Runs d first d₁ ∧
        (buildDocuments documents table).Runs d₁ rest e ∧ trees = .all first :: rest := by
  refine runs_bind.trans ?_
  simp only [runs_bind, runs_pure]
  constructor
  · rintro ⟨first, d₁, hfirst, rest, _, hrest, rfl, rfl⟩
    exact ⟨first, d₁, rest, hfirst, hrest, rfl⟩
  · rintro ⟨first, d₁, rest, hfirst, hrest, rfl⟩
    exact ⟨first, d₁, hfirst, rest, e, hrest, rfl, rfl⟩

/-- A relation is joined and the documents are built at its table; then come the other relations. -/
theorem runs_buildJoins_cons_iff {within : Connective} {column : Column s}
    {documents : List (List (Condition s))} {targets : List (Target s (List (List (Condition s))))}
    {trees : List (Predicate Test)} :
    (buildJoins within (⟨column, documents⟩ :: targets) table).Runs d trees e ↔
      ∃ path d₁ first d₂ rest, (joinRelation table column).Runs d path d₁ ∧
        (buildDocuments documents path).Runs d₁ first d₂ ∧
        (buildJoins within targets table).Runs d₂ rest e ∧ trees = .node within first :: rest := by
  refine runs_bind.trans ?_
  simp only [buildJoin, runs_bind, runs_pure]
  constructor
  · rintro ⟨_, _, ⟨path, d₁, hpath, first, _, hfirst, rfl, rfl⟩, rest, _, hrest, rfl, rfl⟩
    exact ⟨path, d₁, first, _, rest, hpath, hfirst, hrest, rfl⟩
  · rintro ⟨path, d₁, first, d₂, rest, hpath, hfirst, hrest, rfl⟩
    exact ⟨_, d₂, ⟨path, d₁, hpath, first, d₂, hfirst, rfl, rfl⟩, rest, e, hrest, rfl, rfl⟩

/-- A column is joined and added to what is selected. -/
theorem runs_buildSelect_column_iff {column : Column s} {conditions : List (Condition s)}
    (hcolumn : column.isColumn = true) :
    (buildSelect ⟨column, conditions⟩ table).Runs d t e ↔
      ∃ path d₁, (Draft.joinColumn table column).Runs d path d₁ ∧ t = none ∧
        e = (d₁.columnAt path (column.name.getD "")).2.addSelect
          (.column (d₁.columnAt path (column.name.getD "")).1) := by
  simp only [buildSelect, hcolumn, if_true, runs_bind, runs_modifyGet, runs_modify, runs_pure]
  constructor
  · rintro ⟨path, d₁, hpath, _, _, ⟨rfl, rfl⟩, _, _, rfl, rfl, rfl⟩
    exact ⟨path, d₁, hpath, rfl, rfl⟩
  · rintro ⟨path, d₁, hpath, rfl, rfl⟩
    exact ⟨path, d₁, hpath, _, _, ⟨rfl, rfl⟩, (), _, rfl, rfl, rfl⟩

/-- A relation is included, and joined only if there are conditions on its rows. -/
theorem runs_buildSelect_relation_iff {column : Column s} {conditions : List (Condition s)}
    (hcolumn : column.isColumn = false) :
    (buildSelect ⟨column, conditions⟩ table).Runs d t e ↔
      ∃ d₁, (includeRelation table column).Runs d () d₁ ∧
        (conditions = [] ∧ t = none ∧ e = d₁ ∨
          conditions ≠ [] ∧ ∃ path d₂ trees, (joinRelation table column).Runs d₁ path d₂ ∧
            (buildEach conditions path).Runs d₂ trees e ∧ t = some (.all trees)) := by
  simp only [buildSelect, hcolumn, Bool.false_eq_true, if_false, runs_bind]
  cases conditions with
  -- without conditions the relation is asked for and not joined
  | nil =>
    simp only [List.isEmpty_nil, if_true, runs_pure, ne_eq, not_true_eq_false, true_and, false_and,
      or_false]
    constructor
    · rintro ⟨_, d₁, hinclude, rfl, rfl⟩
      exact ⟨d₁, hinclude, rfl, rfl⟩
    · rintro ⟨d₁, hinclude, rfl, rfl⟩
      exact ⟨(), _, hinclude, rfl, rfl⟩
  -- with conditions it is joined as well
  | cons condition conditions =>
    simp only [List.isEmpty_cons, Bool.false_eq_true, if_false, runs_bind, runs_pure]
    constructor
    · rintro ⟨_, d₁, hinclude, path, d₂, hpath, trees, _, hbuilt, rfl, rfl⟩
      exact ⟨d₁, hinclude, .inr ⟨List.cons_ne_nil _ _, path, d₂, trees, hpath, hbuilt, rfl⟩⟩
    · rintro ⟨d₁, hinclude, ⟨hnil, _⟩ | ⟨_, path, d₂, trees, hpath, hbuilt, rfl⟩⟩
      · exact absurd hnil (List.cons_ne_nil _ _)
      · exact ⟨(), d₁, hinclude, path, d₂, hpath, trees, e, hbuilt, rfl, rfl⟩

/-- Targets are built in order, and those without a tree leave none. -/
theorem runs_buildSelects_cons_iff {target : Target s (List (Condition s))}
    {targets : List (Target s (List (Condition s)))} {trees : List (Predicate Test)} :
    (buildSelects (target :: targets) table).Runs d trees e ↔
      ∃ tree d₁ rest, (buildSelect target table).Runs d tree d₁ ∧
        (buildSelects targets table).Runs d₁ rest e ∧ trees = tree.toList ++ rest := by
  refine runs_bind.trans ?_
  simp only [runs_bind, runs_pure]
  constructor
  · rintro ⟨tree, d₁, hfirst, rest, _, hrest, rfl, rfl⟩
    exact ⟨tree, d₁, rest, hfirst, hrest, rfl⟩
  · rintro ⟨tree, d₁, rest, hfirst, hrest, rfl⟩
    exact ⟨tree, d₁, hfirst, rest, e, hrest, rfl, rfl⟩

/-- The front of a list of conditions is built first, and the rest from where it ends. -/
theorem runs_buildEach_append {xs ys : List (Condition s)} {trees : List (Predicate Test)} :
    (buildEach (xs ++ ys) table).Runs d trees e ↔ ∃ front d₁ back,
      (buildEach xs table).Runs d front d₁ ∧ (buildEach ys table).Runs d₁ back e ∧
        trees = front ++ back := by
  induction xs generalizing d e trees with
  | nil =>
    rw [List.nil_append, buildEach]
    simp only [runs_pure]
    constructor
    · intro hrun
      exact ⟨[], d, trees, ⟨rfl, rfl⟩, hrun, rfl⟩
    · rintro ⟨_, _, _, ⟨rfl, rfl⟩, hrun, rfl⟩
      exact hrun
  -- the draft in the middle is where the conditions in front end, whatever their number
  | cons x xs ih =>
    simp only [List.cons_append, runs_buildEach_cons_iff, ih]
    constructor
    · rintro ⟨tree, d₁, _, hfirst, ⟨front, d₂, back, hxs, hys, rfl⟩, rfl⟩
      exact ⟨_, d₂, back, ⟨tree, d₁, front, hfirst, hxs, rfl⟩, hys, (List.append_assoc _ _ _).symm⟩
    · rintro ⟨_, d₂, back, ⟨tree, d₁, front, hfirst, hxs, rfl⟩, hys, rfl⟩
      exact ⟨tree, d₁, _, hfirst, ⟨front, d₂, back, hxs, hys, rfl⟩, List.append_assoc _ _ _⟩

end Condition

end DocQuery
