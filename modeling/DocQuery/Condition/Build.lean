import DocQuery.Draft.Join
import DocQuery.Condition.Basic

/-!
# Building conditions

Building a condition at the table of a path joins what the condition needs, binds its values and
gives the tree of its tests. A condition that does not test rows gives no tree.
-/

namespace DocQuery

namespace Condition

variable {s : Schema}

/-! ## Tests -/

/-- The test of a template on columns and parameters. -/
def testOf (template : String) (columns : List QualifiedColumn) (params : List String) :
    Predicate Test :=
  .leaf (.template template columns params)

/-- One column meets any of the comparisons. Of several columns, each comparison is met by any. -/
def comparisonTree (template : String) (columns : List QualifiedColumn) (params : List String) :
    Predicate Test :=
  match columns with
  | [column] => .any (params.map fun param => testOf template [column] [param])
  | columns =>
    .all (params.map fun param => .any (columns.map fun column => testOf template [column] [param]))

/-- Each column is tested with all parameters. -/
def eachColumn (template : String) (columns : List QualifiedColumn) (params : List String) :
    List (Predicate Test) :=
  columns.map fun column => testOf template [column] params

/-- Each two consecutive columns are tested with all parameters. A last single column would stand
for both. -/
def eachPair (template : String) (params : List String) :
    List QualifiedColumn → List (Predicate Test)
  | [] => []
  | [column] => [testOf template [column, column] params]
  | first :: second :: columns =>
    testOf template [first, second] params :: eachPair template params columns

/-! ## Tables -/

/-- Joins the tables of columns and gives the columns there. -/
def joinColumns (table : TablePath) : List (Column s) → Build s (List QualifiedColumn)
  | [] => return []
  | column :: columns => do
    let path ← Draft.joinColumn table column
    let qualified ← modifyGet (·.columnAt path (column.name.getD ""))
    return qualified :: (← joinColumns table columns)

/-- Joins the relation that a column names and gives the path of its table. The column `self` names
the table itself. -/
def joinRelation (table : TablePath) (column : Column s) : Build s TablePath := do
  let reached ← Draft.joinColumn table column
  match column.name, column.relation? with
  | none, _ => return reached
  | some name, some relation =>
    let path := reached.child (.relation name)
    Draft.join relation path
    return path
  | some _, none =>
    throw (.unknownRelation .relation column.model.name column.text)

/-- Asks for the relations at the ends of hops to be loaded. -/
def includeHops (table : TablePath) : List (Hop s) → Build s Unit
  | [] => return
  | hop :: hops => do
    modify (·.addInclude (table.join hop.path))
    includeHops table hops

/-- Asks for the relation that a column names to be loaded, with those on the way. -/
def includeRelation (table : TablePath) (column : Column s) : Build s Unit := do
  let (hops, error) := column.hops
  includeHops table hops
  match error with
  | some e => throw e
  | none => modify (·.addInclude (table.join column.segments))

/-- Orders by columns one after the other. -/
def orderBy (table : TablePath) : List (Column s × Direction) → Build s Unit
  | [] => return
  | (column, direction) :: entries => do
    let path ← Draft.joinColumn table column
    modify (·.addOrder path (column.name.getD "") direction)
    orderBy table entries

/-- Takes a step that concerns the whole query, which only its root may ask for. -/
def atRoot (function : FunctionName) (table : TablePath) (step : Build s Unit) : Build s Unit :=
  if table.isRoot then step else throw (.functionBelowRoot function.text table.text)

/-! ## Relation joins -/

/-- How the documents about the rows of one relation are joined: with more than one document any is
enough. -/
def withinRelation (documents : Nat) : Connective := if 2 ≤ documents then .or else .and

/-- How several relations with documents are joined: with more than one document each must hold. -/
def acrossRelations (documents : Nat) : Connective := if 2 ≤ documents then .and else .or

/-- The number of documents about each relation. -/
def documentCount (targets : List (Target s (List (List (Condition s))))) : Nat :=
  match targets with
  | [] => 0
  | target :: _ => target.nested.length

/-! ## Conditions -/

mutual

/-- Builds a condition at the table of a path. -/
def build : Condition s → TablePath → Build s (Option (Predicate Test))
  | comparison _ template columns values, table => do
    let columns ← joinColumns table columns
    let params ← modifyGet (·.bindAll values)
    return some (comparisonTree template columns params)
  | presence _ template columns, table => do
    let columns ← joinColumns table columns
    return some (.any (eachColumn template columns []))
  | membership _ template columns values, table => do
    let columns ← joinColumns table columns
    let param ← modifyGet (·.bind values)
    return some (.all (eachColumn template columns [param]))
  | range _ template columns low high, table => do
    let columns ← joinColumns table columns
    let params ← modifyGet (·.bindAll [low, high])
    return some (.all (eachColumn template columns params))
  | overlap _ template columns span, table => do
    let columns ← joinColumns table columns
    let params ← modifyGet (·.bindAll [.instant span.start, .instant span.stop])
    return some (.any (eachPair template params columns))
  | relationJoin targets, table => do
    let documents := documentCount targets
    let trees ← buildJoins (withinRelation documents) targets table
    return some (.node (acrossRelations documents) trees)
  | derivedJoin _ relation subquery conditions, table => do
    let path := Draft.derivedPath (← get) table relation.name
    let parentAlias ← modifyGet (·.aliasOf table)
    let sub ← modifyGet (·.openNested relation.target path)
    let (_, sub) ← Build.within sub do
      let trees ← buildEach subquery sub.base
      modify (·.pushWhere (.all trees))
      Draft.correlate relation parentAlias
    modify (·.absorb sub)
    modify (·.joinDerived path relation.target fun tableAlias => .derived tableAlias sub.finish)
    return some (.all (← buildEach conditions path))
  | select targets, table => do
    let trees ← buildSelects targets table
    return if trees.isEmpty then none else some (.all trees)
  | order entries, table => do
    atRoot .order table (orderBy table entries)
    return none
  | limit n, table => do
    atRoot .limit table (modify (·.setLimit n))
    return none
  | offset n, table => do
    atRoot .offset table (modify (·.setOffset n))
    return none

/-- Builds conditions one after the other and gives the trees that there are. -/
def buildEach : List (Condition s) → TablePath → Build s (List (Predicate Test))
  | [], _ => return []
  | condition :: conditions, table => do
    let tree ← build condition table
    return tree.toList ++ (← buildEach conditions table)

/-- Builds documents one after the other; a document is the conjunction of its conditions. -/
def buildDocuments : List (List (Condition s)) → TablePath → Build s (List (Predicate Test))
  | [], _ => return []
  | document :: documents, table => do
    let trees ← buildEach document table
    return .all trees :: (← buildDocuments documents table)

/-- Joins a relation and builds the documents about its rows. -/
def buildJoin (within : Connective) :
    Target s (List (List (Condition s))) → TablePath → Build s (Predicate Test)
  | ⟨column, documents⟩, table => do
    let path ← joinRelation table column
    return .node within (← buildDocuments documents path)

/-- Joins relations one after the other and builds the documents about their rows. -/
def buildJoins (within : Connective) :
    List (Target s (List (List (Condition s)))) → TablePath → Build s (List (Predicate Test))
  | [], _ => return []
  | target :: targets, table => do
    let tree ← buildJoin within target table
    return tree :: (← buildJoins within targets table)

/-- Selects a column, or includes a relation and builds the document about its rows if it has
entries. -/
def buildSelect : Target s (List (Condition s)) → TablePath → Build s (Option (Predicate Test))
  | ⟨column, conditions⟩, table =>
    if column.isColumn then do
      let path ← Draft.joinColumn table column
      let qualified ← modifyGet (·.columnAt path (column.name.getD ""))
      modify (·.addSelect (.column qualified))
      return none
    else do
      includeRelation table column
      if conditions.isEmpty then return none
      let path ← joinRelation table column
      return some (.all (← buildEach conditions path))

/-- Selects one after the other and gives the trees that there are. -/
def buildSelects : List (Target s (List (Condition s))) → TablePath →
    Build s (List (Predicate Test))
  | [], _ => return []
  | target :: targets, table => do
    let tree ← buildSelect target table
    return tree.toList ++ (← buildSelects targets table)

end

/-- Builds conditions one after the other and adds each tree to the WHERE clause. -/
def buildWhere : List (Condition s) → TablePath → Build s Unit
  | [], _ => return
  | condition :: conditions, table => do
    if let some tree ← build condition table then modify (·.pushWhere tree)
    buildWhere conditions table

end Condition

end DocQuery
