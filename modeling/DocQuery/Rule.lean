import DocQuery.Operand.Shape

/-!
# Rules

The grammar of conditions: a table of rules, each with an operator, the shapes of value it accepts
and the form of condition it makes, and the functions that the operator `:` reaches.
-/

namespace DocQuery

/-- The form of condition that a rule makes. A template's places are filled by columns first, then
by parameters. -/
inductive Form where
  /-- A comparison with each value; with `temporal`, texts compared with chronological columns are
  timestamps. -/
  | comparison (template : String) (temporal : Bool)
  /-- A test of the column alone. -/
  | presence (template : String)
  /-- A test against a list bound as one parameter. -/
  | membership (template : String)
  /-- A test against a lower and an upper bound. -/
  | range (template : String)
  /-- A test of a start and an end column against a time span. -/
  | overlap (template : String)
  /-- Related rows meet nested documents. -/
  | relationJoin
  /-- The row picked by a sub-query meets a nested document. -/
  | derivedJoin
  /-- Columns to select, relations to include. -/
  | select
  /-- Order, limit or offset. -/
  | function
deriving DecidableEq, Repr

/-- A row of the grammar. -/
structure Rule where
  name : String
  operator : String
  shapes : List Shape
  form : Form
  description : String
deriving DecidableEq, Repr

/-- The functions of a query. -/
inductive FunctionName where
  | order
  | limit
  | offset
deriving DecidableEq, Repr

namespace FunctionName

def text : FunctionName → String
  | order => "order"
  | limit => "limit"
  | offset => "offset"

/-- The shapes of value that a function takes. -/
def shapes : FunctionName → List Shape
  | order => [.string, .array, .object, .null]
  | limit => [.count]
  | offset => [.count]

def all : List FunctionName := [order, limit, offset]

/-- The function called `name`, if it takes the value. -/
def find? (name : String) (value : Json) : Option FunctionName :=
  all.find? fun f => f.text == name && f.shapes.any (·.accepts value)

end FunctionName

namespace Rule

/-- The rule applies to the operator and the value. -/
def accepts (rule : Rule) (operator : String) (value : Json) : Bool :=
  rule.operator == operator && rule.shapes.any (·.accepts value)

/-- Shapes that are compared for equality. -/
def scalars : List Shape := [.array, .string, .number]

/-- Shapes that are compared by order. -/
def ordered : List Shape := [.array, .number, .string]

/-- All rules, in the order in which they are tried. -/
def table : List Rule :=
  [⟨"NotInRange", "!..", [.pair], .range "%s NOT BETWEEN %s AND %s",
      "outside the inclusive range [a, b]"⟩,
    ⟨"InRange", "..", [.pair], .range "%s BETWEEN %s AND %s",
      "inside the inclusive range [a, b]"⟩,
    ⟨"Overlaps", "<=>", [.timeSpan], .overlap "(%s, %s) OVERLAPS (%s, %s)",
      "start|end column pairs overlap [start, end|seconds]"⟩,
    ⟨"NotOverlaps", "!<=>", [.timeSpan], .overlap "NOT (%s, %s) OVERLAPS (%s, %s)",
      "start|end column pairs do not overlap [start, end|seconds]"⟩,
    ⟨"NotIn", "!|=", [.array], .membership "%s NOT IN (%s)", "not one of the listed values"⟩,
    ⟨"In", "|=", [.array], .membership "%s IN (%s)", "one of the listed values"⟩,
    ⟨"In2", "", [.array], .membership "%s IN (%s)", "one of the listed values"⟩,
    ⟨"NotEqual", "!=", scalars, .comparison "%s <> %s" false, "not equal"⟩,
    ⟨"NotEqual2", "<>", scalars, .comparison "%s <> %s" false, "not equal"⟩,
    ⟨"GreaterThanOrEqual", ">=", ordered, .comparison "%s >= %s" true,
      "greater than or equal"⟩,
    ⟨"LesserThanOrEqual", "<=", ordered, .comparison "%s <= %s" true, "less than or equal"⟩,
    ⟨"EqualJoin", "=>", [.object, .objectList], .relationJoin,
      "related rows match the sub-query (or any of the sub-queries)"⟩,
    ⟨"SubEqualJoin", "()", [.subQuery], .derivedJoin,
      "the row picked by the sub-query matches the conditions"⟩,
    ⟨"Equal", "=", [.array, .string, .number, .bool], .comparison "%s = %s" false,
      "equal (any of, for arrays)"⟩,
    ⟨"Equal2", "", [.string, .number], .comparison "%s = %s" false, "equal"⟩,
    ⟨"GreaterThan", ">", ordered, .comparison "%s > %s" true, "greater than"⟩,
    ⟨"LesserThan", "<", ordered, .comparison "%s < %s" true, "less than"⟩,
    ⟨"NotIlike", "!~", [.array, .string], .comparison "%s NOT ILIKE %s" false,
      "does not match the pattern, case-insensitive"⟩,
    ⟨"Ilike", "~", [.array, .string], .comparison "%s ILIKE %s" false,
      "matches the pattern, case-insensitive"⟩,
    ⟨"Exists", "", [.true], .presence "%s IS NOT NULL", "is set"⟩,
    ⟨"NotExists", "", [.false], .presence "%s IS NULL", "is not set"⟩,
    ⟨"Select", "", [.null, .object], .select,
      "select the column, or eager-include the relation"⟩,
    ⟨"Functions", ":", [.string, .array, .object, .number, .null], .function,
      "order:, limit:, offset:"⟩]

/-- The first of the rules that applies to the operator and the value. A rule of the functions
applies only if `name` is a function that takes the value. -/
def findIn? (rules : List Rule) (operator name : String) (value : Json) : Option Rule :=
  rules.find? fun rule =>
    rule.accepts operator value
      && (rule.form ≠ .function || (FunctionName.find? name value).isSome)

/-- The rule of the grammar that applies. -/
def find? (operator name : String) (value : Json) : Option Rule :=
  findIn? table operator name value

/-- The names of the rules are different. -/
theorem names_nodup : (table.map Rule.name).Nodup := by decide

end Rule

end DocQuery
