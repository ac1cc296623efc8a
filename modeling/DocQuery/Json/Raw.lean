import DocQuery.Json.Basic

/-!
# Raw JSON

What the grammar of JSON admits, some of which denotes no value: numbers out of range, strings with
unpaired surrogates, and brackets too deep inside each other. A reader that ignores such a part need
not refuse the text.
-/

namespace DocQuery

/-- A JSON text as its grammar has it. -/
inductive RawJson where
  | null
  | bool (b : Bool)
  | number (n : JsonNumber)
  | string (s : String)
  | array (items : List RawJson)
  | object (fields : List (String × RawJson))
  /-- Well-formed text that denotes no value. -/
  | unreadable
deriving Repr, Inhabited

namespace RawJson

mutual

/-- The value, if every part denotes one. -/
def toJson? : RawJson → Option Json
  | null => some .null
  | bool b => some (.bool b)
  | number n => some (.number n)
  | string s => some (.string s)
  | array items => (itemsToJson? items).map Json.array
  | object fields => (fieldsToJson? fields).map Json.object
  | unreadable => none

def itemsToJson? : List RawJson → Option (List Json)
  | [] => some []
  | item :: items => do
    let item ← item.toJson?
    let items ← itemsToJson? items
    some (item :: items)

def fieldsToJson? : List (String × RawJson) → Option (List (String × Json))
  | [] => some []
  | (key, value) :: fields => do
    let value ← value.toJson?
    let fields ← fieldsToJson? fields
    some ((key, value) :: fields)

end

end RawJson

end DocQuery
