import DocQuery.Json.Basic

/-!
# Shapes

The structural classes of JSON values that the rules of the grammar accept.
-/

namespace DocQuery

/-- A structural class of JSON values. -/
inductive Shape where
  | null
  | true
  | false
  | bool
  | number
  /-- A whole number, zero or more. -/
  | count
  | string
  | array
  | object
  /-- An array of two. -/
  | pair
  /-- A non-empty array of objects. -/
  | objectList
  /-- A text, then a text or a number. -/
  | timeSpan
  /-- One or two objects: a sub-query, then conditions on its row. -/
  | subQuery
deriving DecidableEq, Repr

namespace Shape

/-- The value belongs to the class. -/
def accepts : Shape → Json → Bool
  | null, .null => .true
  | true, .bool b => b
  | false, .bool b => !b
  | bool, .bool _ => .true
  | number, .number _ => .true
  | count, .number (.int i) => 0 ≤ i
  | string, .string _ => .true
  | array, .array _ => .true
  | object, .object _ => .true
  | pair, .array items => items.length = 2
  | objectList, .array items => !items.isEmpty && items.all Json.isObject
  | timeSpan, .array [start, stop] => start.isString && (stop.isString || stop.isNumber)
  | subQuery, .array items => 1 ≤ items.length && items.length ≤ 2 && items.all Json.isObject
  | _, _ => .false

/-- The class in words. -/
def name : Shape → String
  | null => "null"
  | true => "true"
  | false => "false"
  | bool => "boolean"
  | number => "number"
  | count => "non-negative integer"
  | string => "string"
  | array => "array"
  | object => "object"
  | pair => "[a, b]"
  | objectList => "object list"
  | timeSpan => "[start, end|seconds]"
  | subQuery => "[subquery, conditions]"

/-- All classes. -/
def all : List Shape :=
  [null, true, false, bool, number, count, string, array, object, pair, objectList, timeSpan,
    subQuery]

theorem mem_all (s : Shape) : s ∈ all := by
  cases s <;> decide

end Shape

end DocQuery
