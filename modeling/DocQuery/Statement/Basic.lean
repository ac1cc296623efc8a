import DocQuery.IncludeTree
import DocQuery.Operand.Basic
import DocQuery.Predicate

/-!
# Statements

A SELECT statement as data. Every table in it has an alias, every column names the alias of its
table, and derived tables hold the statement they are made from. Text arises only when a statement
is rendered, so what refers to what can be read off the data.
-/

namespace DocQuery

/-- A column of the table known by an alias. -/
structure QualifiedColumn where
  tableAlias : String
  column : String
deriving DecidableEq, Repr

/-- A test in the WHERE clause. -/
inductive Test where
  /-- Ready-made SQL. -/
  | text (fragment : Fragment)
  /-- A template whose places take the columns and then the placeholders of the parameters. -/
  | template (template : String) (columns : List QualifiedColumn) (params : List String)
deriving DecidableEq, Repr

/-- An entry of the select list. -/
inductive SelectItem where
  /-- All columns of a table, equal rows once. -/
  | rowsOf (tableAlias : String)
  | column (column : QualifiedColumn)
  | text (sql : String)
deriving DecidableEq, Repr

/-- Sort direction. -/
inductive Direction where
  | ascending
  | descending
deriving DecidableEq, Repr

/-- An entry of the ORDER BY list. -/
structure OrderItem where
  column : QualifiedColumn
  direction : Direction
deriving DecidableEq, Repr

/-- A join. The type of the statements in derived tables is a parameter. -/
inductive Join (σ : Type) where
  /-- The rows of `table` whose column `key` equals the column `left` of an earlier table. -/
  | table (table tableAlias : String) (left : QualifiedColumn) (key : String)
  /-- The rows of a statement, made anew for each row of the earlier tables. -/
  | derived (tableAlias : String) (statement : σ)
  /-- The same, of ready-made SQL. -/
  | derivedText (tableAlias sql : String)
deriving Repr

/-- The alias that a join introduces. -/
def Join.tableAlias {σ : Type} : Join σ → String
  | table _ tableAlias _ _ => tableAlias
  | derived tableAlias _ => tableAlias
  | derivedText tableAlias _ => tableAlias

/-- A parameter and its value. -/
abbrev Binding := String × Operand

/-- A SELECT statement. -/
structure Statement where
  model : String
  baseTable : String
  /-- The alias of the base table; the table's own name for a query that stands alone. -/
  baseAlias : String
  select : List SelectItem
  joins : List (Join Statement)
  predicate : Predicate Test
  bindings : List Binding
  order : List OrderItem
  limit : Option Nat
  offset : Option Nat
  includes : IncludeTree

end DocQuery
