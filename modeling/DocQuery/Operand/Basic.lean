import DocQuery.Json.Basic
import DocQuery.Number.Shortest
import DocQuery.Time.Timestamp

/-!
# Operands

The values bound to the parameters of a query. Objects have no counterpart among them.
-/

namespace DocQuery

/-- A value bound to a parameter. -/
inductive Operand where
  | null
  | bool (b : Bool)
  /-- A whole number of 64 bits with sign. -/
  | int (i : Int)
  | float (x : Binary64)
  | text (s : String)
  | instant (t : Timestamp)
  | list (items : List Operand)
deriving Repr, Inhabited

namespace Operand

/-- The greatest number bound as a whole number. -/
def maxInt : Int := 0x7FFFFFFFFFFFFFFF

/-- A number is bound as a whole number if it is one of 64 bits with sign, else as a double. -/
def ofNumber : JsonNumber → Option Operand
  | .int i => if i ≤ maxInt then some (int i) else (Binary64.ofInt i).map float
  | .float x => some (float x)

mutual

/-- The operand that a JSON value denotes; `none` if there is an object in it. -/
def ofJson? : Json → Option Operand
  | .null => some null
  | .bool b => some (bool b)
  | .number n => ofNumber n
  | .string s => some (text s)
  | .array items => (ofItems? items).map list
  | .object _ => none

/-- The operands that JSON values denote. -/
def ofItems? : List Json → Option (List Operand)
  | [] => some []
  | item :: items =>
    match ofJson? item, ofItems? items with
    | some value, some values => some (value :: values)
    | _, _ => none

end

mutual

/-- The operand as a JSON value; an instant becomes its text. -/
def toJson : Operand → Json
  | null => .null
  | bool b => .bool b
  | int i => .number (.int i)
  | float x => .number (.float x)
  | text s => .string s
  | instant t => .string t.zulu
  | list items => .array (itemsToJson items)

/-- The operands as JSON values. -/
def itemsToJson : List Operand → List Json
  | [] => []
  | item :: items => item.toJson :: itemsToJson items

end

/-- A character inside a literal: a quote is written twice. -/
def escapeQuote (c : Char) : List Char :=
  if c = '\'' then ['\'', '\''] else [c]

/-- A text as a literal. -/
def quoted (s : String) : String :=
  "'" ++ String.ofList (s.toList.flatMap escapeQuote) ++ "'"

mutual

/-- The operand as a literal, for a reader. -/
def literal : Operand → String
  | null => "NULL"
  | bool true => "true"
  | bool false => "false"
  | int i => toString i
  | float x => NumberLayout.plain.text x
  | text s => quoted s
  | instant t => "'" ++ t.rfc3339 ++ "'"
  | list items => "(" ++ ", ".intercalate (itemLiterals items) ++ ")"

/-- The operands as literals. -/
def itemLiterals : List Operand → List String
  | [] => []
  | item :: items => item.literal :: itemLiterals items

end

/-- The single values that the operand stands for: a list's elements, or the operand itself. -/
def elements : Operand → List Operand
  | list items => items
  | value => [value]

end Operand

end DocQuery
