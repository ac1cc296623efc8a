import DocQuery.Number.Binary64

/-!
# JSON values

A value keeps the order of its object fields and the difference between whole numbers and doubles,
because a query document depends on both. `Json.merged` is the reading of a document in which a key
is repeated: the key keeps its first place and takes its last value.
-/

namespace DocQuery

/-- A JSON number: a whole number that fits 64 bits, or a double. -/
inductive JsonNumber where
  | int (i : Int)
  | float (x : Binary64)
deriving DecidableEq, Repr, Inhabited

/-- A JSON value with its object fields in document order. -/
inductive Json where
  | null
  | bool (b : Bool)
  | number (n : JsonNumber)
  | string (s : String)
  | array (items : List Json)
  | object (fields : List (String × Json))
deriving Repr, Inhabited

namespace JsonNumber

/-- The greatest whole number kept as such. -/
def maxInt : Int := 0xFFFFFFFFFFFFFFFF

/-- The least whole number kept as such. -/
def minInt : Int := -0x8000000000000000

/-- The number as a double. A whole number of 64 bits always has a nearest finite double. -/
def toBinary64 : JsonNumber → Option Binary64
  | .int i => Binary64.ofInt i
  | .float x => some x

end JsonNumber

/-- Puts a field into an object: a key that is already there keeps its place and takes the new
value. -/
def putField {α : Type} (fields : List (String × α)) (key : String) (value : α) :
    List (String × α) :=
  if fields.any (·.1 == key) then
    fields.map fun field => if field.1 == key then (key, value) else field
  else fields ++ [(key, value)]

namespace Json

/-- The value under a key of a field list. -/
def lookup? {α : Type} (fields : List (String × α)) (key : String) : Option α :=
  (fields.find? (·.1 == key)).map (·.2)

/-- The value of an object's field. -/
def get? : Json → String → Option Json
  | object fields, key => lookup? fields key
  | _, _ => none

def isString : Json → Bool
  | string _ => true
  | _ => false

def isObject : Json → Bool
  | object _ => true
  | _ => false

def isNumber : Json → Bool
  | number _ => true
  | _ => false

mutual

/-- Resolves repeated keys at every depth. -/
def merged : Json → Json
  | array items => array (mergedItems items)
  | object fields => object (mergedFields [] fields)
  | value => value

/-- Resolves repeated keys in every item. -/
def mergedItems : List Json → List Json
  | [] => []
  | item :: items => item.merged :: mergedItems items

/-- Puts the remaining fields, each with its keys resolved, behind those already read. -/
def mergedFields (done : List (String × Json)) : List (String × Json) → List (String × Json)
  | [] => done
  | (key, value) :: fields => mergedFields (putField done key value.merged) fields

end

end Json

end DocQuery
