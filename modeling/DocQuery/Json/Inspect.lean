import DocQuery.Json.Writer
import DocQuery.Text.Unprinted

/-!
# Inspected JSON

The text of a value with the type of each part spelled out, for messages about a value of the wrong
type.
-/

namespace DocQuery

namespace Json

/-- The characters shown for one character of an inspected string. -/
def inspectChar (c : Char) : List Char :=
  if c = '"' then ['\\', '"']
  else if c = '\\' then ['\\', '\\']
  else if c.toNat = 0 then ['\\', '0']
  else if c = '\t' then ['\\', 't']
  else if c = '\n' then ['\\', 'n']
  else if c = '\r' then ['\\', 'r']
  else if isUnprinted c then
    ['\\', 'u', '\x7b'] ++ Nat.toDigits 16 c.toNat ++ ['\x7d']
  else [c]

/-- A string in quotes, unprinted characters by number. -/
def inspectString (s : String) : String :=
  "\"" ++ String.ofList (s.toList.flatMap inspectChar) ++ "\""

mutual

/-- The value with the type of each part. -/
def inspect : Json → String
  | null => "Null"
  | bool true => "Bool(true)"
  | bool false => "Bool(false)"
  | number n => "Number(" ++ numberText n ++ ")"
  | string s => "String(" ++ inspectString s ++ ")"
  | array items => "Array [" ++ ", ".intercalate (inspectItems items) ++ "]"
  | object fields => "Object \x7b" ++ ", ".intercalate (inspectFields fields) ++ "\x7d"

def inspectItems : List Json → List String
  | [] => []
  | item :: items => item.inspect :: inspectItems items

def inspectFields : List (String × Json) → List String
  | [] => []
  | (key, value) :: fields => (inspectString key ++ ": " ++ value.inspect) :: inspectFields fields

end

/-- A value that may be absent. -/
def inspectOption : Option Json → String
  | none => "None"
  | some value => "Some(" ++ value.inspect ++ ")"

end Json

end DocQuery
