import DocQuery.Proofs.Build.Reach
import DocQuery.Proofs.Draft.Derived

namespace DocQuery

/-! # What conditions take up

Read off the conditions alone: the sub-queries that they embed, the relations that they bring in
right below their table, and the parameters and derived tables that they use.
-/

variable {s : Schema}

namespace Condition

/-! ## Sub-queries -/

mutual

/-- The sub-queries that the condition embeds in its statement, each with the relation that it goes
over. Sub-queries inside these are not among them. -/
def subqueries : Condition s → List (Relation s × List (Condition s))
  | .relationJoin targets => subqueriesOfJoins targets
  | .derivedJoin _ relation subquery conditions =>
    (relation, subquery) :: subqueriesOfEach conditions
  | .select targets => subqueriesOfSelects targets
  | _ => []

def subqueriesOfEach : List (Condition s) → List (Relation s × List (Condition s))
  | [] => []
  | condition :: conditions => condition.subqueries ++ subqueriesOfEach conditions

def subqueriesOfDocuments : List (List (Condition s)) → List (Relation s × List (Condition s))
  | [] => []
  | document :: documents => subqueriesOfEach document ++ subqueriesOfDocuments documents

def subqueriesOfJoins : List (Target s (List (List (Condition s)))) →
    List (Relation s × List (Condition s))
  | [] => []
  | ⟨_, documents⟩ :: targets => subqueriesOfDocuments documents ++ subqueriesOfJoins targets

def subqueriesOfSelects : List (Target s (List (Condition s))) →
    List (Relation s × List (Condition s))
  | [] => []
  | ⟨_, conditions⟩ :: targets => subqueriesOfEach conditions ++ subqueriesOfSelects targets

end

/-! ## Relations right below the table -/

mutual

/-- The relations that the condition brings in right below the table that it is built at. -/
def entered : Condition s → List String
  | .comparison _ _ columns _ => columns.flatMap fun c => c.model.entered c.path
  | .presence _ _ columns => columns.flatMap fun c => c.model.entered c.path
  | .membership _ _ columns _ => columns.flatMap fun c => c.model.entered c.path
  | .range _ _ columns _ _ => columns.flatMap fun c => c.model.entered c.path
  | .overlap _ _ columns _ => columns.flatMap fun c => c.model.entered c.path
  | .relationJoin targets => enteredByJoins targets
  | .derivedJoin .. => []
  | .select targets => enteredBySelects targets
  | .order entries => entries.flatMap fun e => e.1.model.entered e.1.path
  | .limit _ => []
  | .offset _ => []

def enteredByEach : List (Condition s) → List String
  | [] => []
  | condition :: conditions => condition.entered ++ enteredByEach conditions

def enteredByDocuments : List (List (Condition s)) → List String
  | [] => []
  | document :: documents => enteredByEach document ++ enteredByDocuments documents

/-- Documents about the rows of a relation are built further below; those about `self` are not. -/
def enteredByJoins : List (Target s (List (List (Condition s)))) → List String
  | [] => []
  | ⟨column, documents⟩ :: targets =>
    column.model.entered column.segments
      ++ (if column.segments = [] then enteredByDocuments documents else [])
      ++ enteredByJoins targets

/-- A relation is only joined for the conditions on its rows. -/
def enteredBySelects : List (Target s (List (Condition s))) → List String
  | [] => []
  | ⟨column, conditions⟩ :: targets =>
    (if column.isColumn then column.model.entered column.path
      else if conditions.isEmpty then [] else column.model.entered column.segments)
      ++ enteredBySelects targets

end

end Condition

/-! ## Parameters and derived tables -/

/-- How far a build has come: the number of the last parameter, and the paths of the derived tables
of the statement. -/
structure Progress where
  lastParam : Nat
  derived : List TablePath

namespace Progress

/-- The progress of a sub-query that is begun now. -/
def nested (p : Progress) : Progress := ⟨p.lastParam, []⟩

def bind (p : Progress) (n : Nat) : Progress := { p with lastParam := p.lastParam + n }

/-- A derived table has come in at `path`, after a sub-query that came as far as `inner`. -/
def claim (p inner : Progress) (path : TablePath) : Progress :=
  ⟨inner.lastParam, path :: p.derived⟩

end Progress

namespace Condition

mutual

/-- The progress once the condition is built. -/
def advance : Condition s → TablePath → Progress → Progress
  | .comparison _ _ _ values, _, p => p.bind values.length
  | .presence .., _, p => p
  | .membership .., _, p => p.bind 1
  | .range .., _, p => p.bind 2
  | .overlap .., _, p => p.bind 2
  | .relationJoin targets, table, p => advanceJoins targets table p
  | .derivedJoin _ relation subquery conditions, table, p =>
    let path := Draft.freePath p.derived table relation.name
    let inner := advanceEach subquery (.root relation.target.table) p.nested
    advanceEach conditions path (p.claim inner path)
  | .select targets, table, p => advanceSelects targets table p
  | .order _, _, p => p
  | .limit _, _, p => p
  | .offset _, _, p => p

def advanceEach : List (Condition s) → TablePath → Progress → Progress
  | [], _, p => p
  | condition :: conditions, table, p => advanceEach conditions table (condition.advance table p)

def advanceDocuments : List (List (Condition s)) → TablePath → Progress → Progress
  | [], _, p => p
  | document :: documents, table, p => advanceDocuments documents table (advanceEach document table p)

def advanceJoins : List (Target s (List (List (Condition s)))) → TablePath → Progress → Progress
  | [], _, p => p
  | ⟨column, documents⟩ :: targets, table, p =>
    advanceJoins targets table (advanceDocuments documents (table.join column.segments) p)

def advanceSelects : List (Target s (List (Condition s))) → TablePath → Progress → Progress
  | [], _, p => p
  | ⟨column, conditions⟩ :: targets, table, p =>
    advanceSelects targets table (advanceEach conditions (table.join column.segments) p)

end

end Condition

end DocQuery
