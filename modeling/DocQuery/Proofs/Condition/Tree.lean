import DocQuery.Proofs.Condition.Extent

namespace DocQuery

/-! # The trees of conditions

The tree of tests that a condition makes, given the aliases of all tables and the names of all
parameters. Building a condition gives this tree.
-/

/-- The aliases of tables and the names of parameters. -/
structure Naming where
  tables : TablePath → String
  params : Nat → String

/-- The names of the next `n` parameters. -/
def Naming.nextParams (v : Naming) (p : Progress) (n : Nat) : List String :=
  (List.range' (p.lastParam + 1) n).map v.params

variable {s : Schema}

/-- The columns as they are qualified at a table. -/
def Naming.qualify (v : Naming) (table : TablePath) (columns : List (Column s)) :
    List QualifiedColumn :=
  columns.map (Column.qualify v.tables table)

namespace Condition

mutual

/-- The tree of the condition at a table, when the build has come as far as `p`. -/
def tree (v : Naming) : Condition s → TablePath → Progress → Option (Predicate Test)
  | .comparison _ template columns values, table, p =>
    some (comparisonTree template (v.qualify table columns) (v.nextParams p values.length))
  | .presence _ template columns, table, _ =>
    some (.any (eachColumn template (v.qualify table columns) []))
  | .membership _ template columns _, table, p =>
    some (.all (eachColumn template (v.qualify table columns) (v.nextParams p 1)))
  | .range _ template columns _ _, table, p =>
    some (.all (eachColumn template (v.qualify table columns) (v.nextParams p 2)))
  | .overlap _ template columns _, table, p =>
    some (.any (eachPair template (v.nextParams p 2) (v.qualify table columns)))
  | .relationJoin targets, table, p =>
    some (.node (acrossRelations (documentCount targets))
      (joinTrees v (withinRelation (documentCount targets)) targets table p))
  | .derivedJoin _ relation subquery conditions, table, p =>
    let path := Draft.freePath p.derived table relation.name
    let inner := advanceEach subquery (.root relation.target.table) p.nested
    some (.all (treeEach v conditions path (p.claim inner path)))
  | .select targets, table, p =>
    let trees := selectTrees v targets table p
    if trees.isEmpty then none else some (.all trees)
  | .order _, _, _ => none
  | .limit _, _, _ => none
  | .offset _, _, _ => none

/-- The trees that there are of conditions one after the other. -/
def treeEach (v : Naming) : List (Condition s) → TablePath → Progress → List (Predicate Test)
  | [], _, _ => []
  | condition :: conditions, table, p =>
    (condition.tree v table p).toList ++ treeEach v conditions table (condition.advance table p)

def documentTrees (v : Naming) : List (List (Condition s)) → TablePath → Progress →
    List (Predicate Test)
  | [], _, _ => []
  | document :: documents, table, p =>
    .all (treeEach v document table p) ::
      documentTrees v documents table (advanceEach document table p)

def joinTrees (v : Naming) (within : Connective) :
    List (Target s (List (List (Condition s)))) → TablePath → Progress → List (Predicate Test)
  | [], _, _ => []
  | ⟨column, documents⟩ :: targets, table, p =>
    .node within (documentTrees v documents (table.join column.segments) p) ::
      joinTrees v within targets table (advanceDocuments documents (table.join column.segments) p)

/-- Only relations with conditions on their rows have a tree. -/
def selectTrees (v : Naming) : List (Target s (List (Condition s))) → TablePath → Progress →
    List (Predicate Test)
  | [], _, _ => []
  | ⟨column, conditions⟩ :: targets, table, p =>
    (if conditions.isEmpty then []
      else [.all (treeEach v conditions (table.join column.segments) p)])
      ++ selectTrees v targets table (advanceEach conditions (table.join column.segments) p)

end

end Condition

end DocQuery
