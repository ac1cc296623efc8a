import DocQuery.Plan
import DocQuery.Statement.Basic
import DocQuery.Text.Template

/-!
# Rendered statements

The text of each part of a statement, with identifiers bare or in double quotes. `Statement.toPlan`
renders the parts and keeps them apart, `Plan.toSql` puts them together.
-/

namespace DocQuery

/-- A character inside a quoted identifier: a quote is written twice. -/
def escapeIdentifierChar (c : Char) : List Char :=
  if c = '"' then ['"', '"'] else [c]

/-- An identifier, in quotes if `quoted` holds. -/
def identifier (quoted : Bool) (name : String) : String :=
  if quoted then "\"" ++ String.ofList (name.toList.flatMap escapeIdentifierChar) ++ "\"" else name

/-- The placeholder of a parameter. -/
def placeholder (param : String) : String := ":" ++ param

namespace QualifiedColumn

def toSql (quoted : Bool) (c : QualifiedColumn) : String :=
  identifier quoted c.tableAlias ++ "." ++ identifier quoted c.column

end QualifiedColumn

namespace Test

/-- The names of the parameters in the test. -/
def params : Test → List String
  | text fragment => fragment.params
  | template _ _ params => params

/-- The test as a fragment of SQL. -/
def toFragment (quoted : Bool) : Test → Fragment
  | text fragment => fragment
  | template t columns params =>
    ⟨Template.render t (columns.map (QualifiedColumn.toSql quoted) ++ params.map placeholder),
      params⟩

end Test

namespace SelectItem

def toSql (quoted : Bool) : SelectItem → String
  | rowsOf tableAlias => "DISTINCT " ++ identifier quoted tableAlias ++ ".*"
  | column c => c.toSql quoted
  | text sql => sql

end SelectItem

namespace Direction

def keyword : Direction → String
  | ascending => "ASC"
  | descending => "DESC"

end Direction

namespace OrderItem

def toSql (quoted : Bool) (item : OrderItem) : String :=
  item.column.toSql quoted ++ " " ++ item.direction.keyword

end OrderItem

/-- The join of a table. -/
def tableJoinText (quoted : Bool) (table tableAlias : String) (left : QualifiedColumn)
    (key : String) : String :=
  "JOIN " ++ identifier quoted table ++ " AS " ++ identifier quoted tableAlias ++ " ON "
    ++ left.toSql quoted ++ " = " ++ QualifiedColumn.toSql quoted ⟨tableAlias, key⟩

/-- The join of a derived table. -/
def derivedJoinText (quoted : Bool) (tableAlias sql : String) : String :=
  "JOIN LATERAL (" ++ sql ++ ") AS " ++ identifier quoted tableAlias ++ " ON TRUE"

/-- The FROM item: a table, with its alias unless that is the table's own name. -/
def sourceText (quoted : Bool) (table tableAlias : String) : String :=
  if tableAlias = table then identifier quoted tableAlias
  else identifier quoted table ++ " AS " ++ identifier quoted tableAlias

namespace Statement

mutual

/-- The clauses of the statement as text. -/
def toPlan (quoted : Bool) : Statement → Plan
  | ⟨model, baseTable, baseAlias, select, joins, predicate, bindings, order, limit, offset,
      includes⟩ =>
    let predicate := predicate.map (Test.toFragment quoted)
    { model
      baseTable
      source := sourceText quoted baseTable baseAlias
      select := select.map (SelectItem.toSql quoted)
      joins := joinTexts quoted joins
      predicate
      whereClause := if predicate.isEmpty then none else some predicate.toSql
      bindings
      order := order.map (OrderItem.toSql quoted)
      limit
      offset
      includes }

/-- The texts of joins. -/
def joinTexts (quoted : Bool) : List (Join Statement) → List String
  | [] => []
  | join :: rest => joinText quoted join :: joinTexts quoted rest

/-- The text of a join. -/
def joinText (quoted : Bool) : Join Statement → String
  | .table table tableAlias left key => tableJoinText quoted table tableAlias left key
  | .derived tableAlias statement =>
    derivedJoinText quoted tableAlias (statement.toPlan quoted).toSql
  | .derivedText tableAlias sql => derivedJoinText quoted tableAlias sql

end

end Statement

end DocQuery
