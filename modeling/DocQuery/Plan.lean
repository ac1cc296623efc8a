import DocQuery.IncludeTree
import DocQuery.Json.Basic
import DocQuery.Operand.Basic
import DocQuery.Predicate

/-!
# Plans

A plan is what a client needs to run a query: the clauses of the SELECT statement as text with named
placeholders, the values of the parameters, and the relations to load with the result.
-/

namespace DocQuery

/-- The clauses of a query. -/
structure Plan where
  model : String
  baseTable : String
  /-- The FROM item. -/
  source : String
  select : List String
  joins : List String
  predicate : Predicate Fragment
  whereClause : Option String
  /-- Parameters and their values in the order of allocation. -/
  bindings : List (String × Operand)
  order : List String
  limit : Option Nat
  offset : Option Nat
  includes : IncludeTree

namespace Plan

/-- The value of a parameter. -/
def binding? (p : Plan) (name : String) : Option Operand :=
  p.bindings.lookup name

/-- A clause that is there only if it has a text. -/
def optionalClause (keyword : String) : Option String → String
  | none => ""
  | some text => " " ++ keyword ++ " " ++ text

/-- The statement. -/
def toSql (p : Plan) : String :=
  "SELECT " ++ ", ".intercalate p.select ++ " FROM " ++ p.source
    ++ String.join (p.joins.map (" " ++ ·))
    ++ optionalClause "WHERE" p.whereClause
    ++ optionalClause "ORDER BY"
      (if p.order.isEmpty then none else some (", ".intercalate p.order))
    ++ optionalClause "LIMIT" (p.limit.map toString)
    ++ optionalClause "OFFSET" (p.offset.map toString)

/-- A list of texts as JSON. -/
def textsToJson (texts : List String) : Json := .array (texts.map Json.string)

/-- A number that may be absent as JSON. -/
def countToJson : Option Nat → Json
  | none => .null
  | some n => .number (.int n)

/-- The plan as JSON; the tree of tests is left out, as its text is there. -/
def toJson (p : Plan) : Json :=
  .object
    [("model", .string p.model),
      ("base_table", .string p.baseTable),
      ("from", .string p.source),
      ("select", textsToJson p.select),
      ("joins", textsToJson p.joins),
      ("where_clause", p.whereClause.elim .null Json.string),
      ("bindings", .array (p.bindings.map fun b => .array [.string b.1, b.2.toJson])),
      ("order", textsToJson p.order),
      ("limit", countToJson p.limit),
      ("offset", countToJson p.offset),
      ("includes", p.includes.toJson)]

end Plan

end DocQuery
