import DocQuery.Column
import DocQuery.Operand.Binding
import DocQuery.Rule
import DocQuery.Statement.Basic

/-!
# Conditions

A condition is one entry of a query document, read against a model: its columns are known to exist
and to be open to queries, its values are operands, and nested documents are lists of conditions on
the model that they are about.
-/

namespace DocQuery

/-- A column with what is asked of the rows that it leads to. -/
structure Target (s : Schema) (δ : Type) where
  column : Column s
  nested : δ

/-- An entry of a query document. The first field of a test is the name of its rule. -/
inductive Condition (s : Schema) where
  /-- The columns are compared with each of the values. -/
  | comparison (rule template : String) (columns : List (Column s)) (values : List Operand)
  /-- The columns are tested without a value. -/
  | presence (rule template : String) (columns : List (Column s))
  /-- The columns are tested against one list. -/
  | membership (rule template : String) (columns : List (Column s)) (values : Operand)
  /-- The columns are tested against two bounds. -/
  | range (rule template : String) (columns : List (Column s)) (low high : Operand)
  /-- Pairs of a start and an end column are tested against a time span. -/
  | overlap (rule template : String) (columns : List (Column s)) (span : TimeSpan)
  /-- Rows related over the columns meet the documents. -/
  | relationJoin (targets : List (Target s (List (List (Condition s)))))
  /-- The row that a sub-query picks over a relation meets conditions. -/
  | derivedJoin (column : Column s) (relation : Relation s)
      (subquery conditions : List (Condition s))
  /-- Columns are selected, relations included, and their rows meet conditions. -/
  | select (targets : List (Target s (List (Condition s))))
  | order (entries : List (Column s × Direction))
  | limit (n : Nat)
  | offset (n : Nat)

namespace Condition

variable {s : Schema}

/-- The name of the rule or function that the condition comes from. -/
def name : Condition s → String
  | comparison rule .. => rule
  | presence rule .. => rule
  | membership rule .. => rule
  | range rule .. => rule
  | overlap rule .. => rule
  | relationJoin .. => "EqualJoin"
  | derivedJoin .. => "SubEqualJoin"
  | select .. => "Select"
  | order .. => FunctionName.order.text
  | limit .. => FunctionName.limit.text
  | offset .. => FunctionName.offset.text

end Condition

end DocQuery
