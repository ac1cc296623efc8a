import DocQuery.Proofs.Condition.Tree
import DocQuery.Proofs.Predicate.Evaluate

namespace DocQuery

/-! # The meaning of conditions

What conditions say, read off them directly: a truth value decides each test, and the values are put
together as the conditions ask for. A condition that says nothing has no value and does not matter.
The main result is that the trees of conditions have this meaning.

* `evaluate_tree`: the tree of a condition has its meaning.
* `allOf_treeEach`: and so has the conjunction of the trees of several.
-/

/-! ## Absent values -/

/-- All of the values that there are hold. -/
def allOf (values : List (Option Bool)) : Option Bool :=
  match values.filterMap id with
  | [] => none
  | present => some (present.all id)

/-- One of the values that there are holds. -/
def anyOf (values : List (Option Bool)) : Option Bool :=
  match values.filterMap id with
  | [] => none
  | present => some (present.any id)

/-- How the values of a node's children are put together. -/
def Connective.combine : Connective → List (Option Bool) → Option Bool
  | .and => allOf
  | .or => anyOf

/-- The first value is joined to what the others are put together to. -/
theorem Connective.combine_cons (c : Connective) (value : Option Bool) (values : List (Option Bool)) :
    c.combine (value :: values) = c.join value (c.combine values) := by
  cases value with
  | none => cases c <;> rfl
  | some b =>
    have hcons : (some b :: values).filterMap id = b :: values.filterMap id := rfl
    -- a value is there at least, so what matters is whether there are others
    cases c <;>
      · simp only [combine, allOf, anyOf]
        rw [hcons]
        cases values.filterMap id <;> simp [join, apply]

theorem allOf_cons (value : Option Bool) (values : List (Option Bool)) :
    allOf (value :: values) = Connective.and.join value (allOf values) :=
  Connective.combine_cons .and value values

theorem evaluate_node {α : Type} (truth : α → Bool) (c : Connective)
    (children : List (Predicate α)) :
    (Predicate.node c children).evaluate truth =
      c.combine (children.map (Predicate.evaluate truth)) := by
  rw [Predicate.evaluate]
  induction children with
  | nil => cases c <;> rfl
  | cons child rest ih =>
    rw [Predicate.evaluateChildren, ih, List.map_cons, c.combine_cons]

/-! ## Conditions -/

variable {s : Schema}

/-- Two and two of the columns. A last single column stands for both. -/
def columnPairs {α : Type} : List α → List (α × α)
  | [] => []
  | [column] => [(column, column)]
  | first :: second :: columns => (first, second) :: columnPairs columns

/-- How the tests of a query are decided: the aliases and parameters by name, and the truth of each
test. -/
structure Reading extends Naming where
  truth : Test → Bool

/-- The test of a template on columns at a table and on parameters. -/
def Reading.holds (r : Reading) (table : TablePath) (template : String) (columns : List (Column s))
    (params : List String) : Option Bool :=
  some (r.truth (.template template (columns.map (Column.qualify r.tables table)) params))

namespace Condition

mutual

/-- What a condition says at a table. Its parameters are the next after `p`, and its derived table
is the first of its relation that `p` leaves free. -/
def meaning (r : Reading) : Condition s → TablePath → Progress → Option Bool
  | .comparison _ template columns values, table, p =>
    let params := r.nextParams p values.length
    match columns with
    | [column] => anyOf (params.map fun param => r.holds table template [column] [param])
    | columns =>
      allOf (params.map fun param =>
        anyOf (columns.map fun column => r.holds table template [column] [param]))
  | .presence _ template columns, table, _ =>
    anyOf (columns.map fun column => r.holds table template [column] [])
  | .membership _ template columns _, table, p =>
    allOf (columns.map fun column => r.holds table template [column] (r.nextParams p 1))
  | .range _ template columns _ _, table, p =>
    allOf (columns.map fun column => r.holds table template [column] (r.nextParams p 2))
  | .overlap _ template columns _, table, p =>
    anyOf ((columnPairs columns).map fun pair =>
      r.holds table template [pair.1, pair.2] (r.nextParams p 2))
  | .relationJoin targets, table, p =>
    let rows := joinMeanings r targets table p
    if 2 ≤ documentCount targets then allOf (rows.map anyOf) else anyOf (rows.map allOf)
  | .derivedJoin _ relation subquery conditions, table, p =>
    let path := Draft.freePath p.derived table relation.name
    let inner := advanceEach subquery (.root relation.target.table) p.nested
    allOf (meaningEach r conditions path (p.claim inner path))
  | .select targets, table, p => allOf (selectMeanings r targets table p)
  | .order _, _, _ => none
  | .limit _, _, _ => none
  | .offset _, _, _ => none

/-- What conditions say one after the other. -/
def meaningEach (r : Reading) : List (Condition s) → TablePath → Progress → List (Option Bool)
  | [], _, _ => []
  | condition :: conditions, table, p =>
    condition.meaning r table p :: meaningEach r conditions table (condition.advance table p)

/-- What documents say; a document says all that its conditions say. -/
def documentMeanings (r : Reading) : List (List (Condition s)) → TablePath → Progress →
    List (Option Bool)
  | [], _, _ => []
  | document :: documents, table, p =>
    allOf (meaningEach r document table p) ::
      documentMeanings r documents table (advanceEach document table p)

/-- What the documents about the rows of each relation say. -/
def joinMeanings (r : Reading) : List (Target s (List (List (Condition s)))) → TablePath → Progress →
    List (List (Option Bool))
  | [], _, _ => []
  | ⟨column, documents⟩ :: targets, table, p =>
    documentMeanings r documents (table.join column.segments) p ::
      joinMeanings r targets table (advanceDocuments documents (table.join column.segments) p)

/-- What the document about the rows of each selected relation says. -/
def selectMeanings (r : Reading) : List (Target s (List (Condition s))) → TablePath → Progress →
    List (Option Bool)
  | [], _, _ => []
  | ⟨column, conditions⟩ :: targets, table, p =>
    allOf (meaningEach r conditions (table.join column.segments) p) ::
      selectMeanings r targets table (advanceEach conditions (table.join column.segments) p)

end

/-! ## Trees -/

variable {r : Reading} {table : TablePath}

theorem evaluate_eachColumn (r : Reading) (table : TablePath) (template : String)
    (columns : List (Column s)) (params : List String) :
    (eachColumn template (r.qualify table columns) params).map (Predicate.evaluate r.truth) =
      columns.map fun column => r.holds table template [column] params := by
  rw [eachColumn, Naming.qualify, List.map_map, List.map_map]
  rfl

theorem evaluate_eachPair (r : Reading) (table : TablePath) (template : String)
    (columns : List (Column s)) (params : List String) :
    (eachPair template params (r.qualify table columns)).map (Predicate.evaluate r.truth) =
      (columnPairs columns).map fun pair => r.holds table template [pair.1, pair.2] params := by
  -- columns are taken in pairs, and a last one by itself
  induction columns using columnPairs.induct with
  | case1 => rfl
  | case2 column => rfl
  | case3 first second columns ih =>
    have hrest : r.qualify table (first :: second :: columns) =
        first.qualify r.tables table :: second.qualify r.tables table :: r.qualify table columns := rfl
    rw [hrest, eachPair, List.map_cons, ih, columnPairs, List.map_cons]
    rfl

/-- Of one column any value may hold; of several each value must hold of any. -/
theorem evaluate_comparisonTree (r : Reading) (table : TablePath) (template : String)
    (columns : List (Column s)) (params : List String) :
    (comparisonTree template (r.qualify table columns) params).evaluate r.truth =
      match columns with
      | [column] => anyOf (params.map fun param => r.holds table template [column] [param])
      | columns => allOf (params.map fun param =>
          anyOf (columns.map fun column => r.holds table template [column] [param])) := by
  have hgroup : ∀ columns : List (Column s),
      (Predicate.all (params.map fun param =>
        .any (eachColumn template (r.qualify table columns) [param]))).evaluate r.truth =
        allOf (params.map fun param =>
          anyOf (columns.map fun column => r.holds table template [column] [param])) := by
    intro columns
    rw [Predicate.all, evaluate_node, List.map_map]
    refine congrArg allOf (List.map_congr_left fun param _ => ?_)
    rw [Function.comp_apply, Predicate.any, evaluate_node, evaluate_eachColumn]
    rfl
  -- only a single column has a tree of its own
  rcases columns with _ | ⟨column, _ | ⟨second, columns⟩⟩
  · exact hgroup []
  · have hsingle : comparisonTree template (r.qualify table [column]) params =
        .any (params.map fun param => testOf template (r.qualify table [column]) [param]) := rfl
    rw [hsingle, Predicate.any, evaluate_node, List.map_map]
    rfl
  · exact hgroup (column :: second :: columns)

/-- Absent trees do not matter. -/
theorem allOf_toList_append (truth : Test → Bool) (tree : Option (Predicate Test))
    (trees : List (Predicate Test)) :
    allOf ((tree.toList ++ trees).map (Predicate.evaluate truth)) =
      allOf (tree.bind (Predicate.evaluate truth) :: trees.map (Predicate.evaluate truth)) := by
  cases tree with
  | none => rfl
  | some tree => rfl

mutual

/-- The tree of a condition has the condition's meaning. -/
theorem evaluate_tree (r : Reading) (c : Condition s) (table : TablePath) (p : Progress) :
    (c.tree r.toNaming table p).bind (Predicate.evaluate r.truth) = c.meaning r table p := by
  cases c with
  | comparison rule template columns values =>
    exact evaluate_comparisonTree r table template columns _
  | presence rule template columns =>
    rw [tree, Option.bind_some, Predicate.any, evaluate_node, evaluate_eachColumn]
    rfl
  | membership rule template columns values =>
    rw [tree, Option.bind_some, Predicate.all, evaluate_node, evaluate_eachColumn]
    rfl
  | range rule template columns low high =>
    rw [tree, Option.bind_some, Predicate.all, evaluate_node, evaluate_eachColumn]
    rfl
  | overlap rule template columns span =>
    rw [tree, Option.bind_some, Predicate.any, evaluate_node, evaluate_eachPair]
    rfl
  | relationJoin targets =>
    rw [tree, Option.bind_some, evaluate_node, evaluate_joinTrees r targets, meaning,
      acrossRelations, withinRelation]
    split
    · rfl
    · rfl
  | derivedJoin column relation subquery conditions =>
    rw [tree, Option.bind_some, Predicate.all, evaluate_node]
    exact allOf_treeEach r conditions _ _
  | select targets =>
    -- where no relation has conditions there is neither a tree nor a value
    rw [tree, meaning, ← allOf_selectTrees r targets]
    split
    · rename_i hempty
      rw [List.isEmpty_iff.1 hempty]
      rfl
    · rw [Option.bind_some, Predicate.all, evaluate_node]
      rfl
  | order entries => rfl
  | limit n => rfl
  | offset n => rfl

theorem allOf_treeEach (r : Reading) (conditions : List (Condition s)) (table : TablePath)
    (p : Progress) :
    allOf ((treeEach r.toNaming conditions table p).map (Predicate.evaluate r.truth)) =
      allOf (meaningEach r conditions table p) := by
  cases conditions with
  | nil => rfl
  | cons condition conditions =>
    rw [treeEach, allOf_toList_append, allOf_cons, allOf_treeEach r conditions, meaningEach,
      allOf_cons, evaluate_tree r condition]

theorem evaluate_documentTrees (r : Reading) (documents : List (List (Condition s)))
    (table : TablePath) (p : Progress) :
    (documentTrees r.toNaming documents table p).map (Predicate.evaluate r.truth) =
      documentMeanings r documents table p := by
  cases documents with
  | nil => rfl
  | cons document documents =>
    rw [documentTrees, List.map_cons, Predicate.all, evaluate_node, evaluate_documentTrees r documents,
      documentMeanings]
    exact congrArg (· :: _) (allOf_treeEach r document table p)

theorem evaluate_joinTrees (r : Reading) (targets : List (Target s (List (List (Condition s)))))
    (within : Connective) (table : TablePath) (p : Progress) :
    (joinTrees r.toNaming within targets table p).map (Predicate.evaluate r.truth) =
      (joinMeanings r targets table p).map within.combine := by
  cases targets with
  | nil => rfl
  | cons target targets =>
    rcases target with ⟨column, documents⟩
    rw [joinTrees, List.map_cons, evaluate_node, evaluate_documentTrees r documents,
      evaluate_joinTrees r targets, joinMeanings, List.map_cons]

theorem allOf_selectTrees (r : Reading) (targets : List (Target s (List (Condition s))))
    (table : TablePath) (p : Progress) :
    allOf ((selectTrees r.toNaming targets table p).map (Predicate.evaluate r.truth)) =
      allOf (selectMeanings r targets table p) := by
  cases targets with
  | nil => rfl
  | cons target targets =>
    rcases target with ⟨column, conditions⟩
    rw [selectTrees, selectMeanings, allOf_cons, ← allOf_selectTrees r targets,
      ← allOf_treeEach r conditions]
    split
    · -- a target that tests nothing adds no tree
      rename_i hempty
      rw [List.isEmpty_iff.1 hempty]
      rfl
    · rw [List.singleton_append, List.map_cons, allOf_cons, Predicate.all, evaluate_node]
      rfl

end

end Condition

end DocQuery
