import DocQuery.Condition.OfRule

/-!
# Query documents

A query document is an object whose entries are conditions. Reading goes through the entries in
document order and stops at the first failure; a failure inside a nested document is wrapped with
that document and its model.
-/

namespace DocQuery

namespace Condition

variable {s : Schema}

/-- The error of a document that is neither an object nor null. -/
def notObject (model : Model s) (value : Json) : Error :=
  .invalidValue model.name (.queryNotObject value)

/-! ## By any rules -/

section ByRules

variable (rules : List Rule)

/-- Reads one entry by the first of the rules that applies, given the readers of the documents in
its value. -/
def ofEntryIn (model : Model s) (text : String) (value : Json) (readers : List (DocumentReader s)) :
    Except Error (Condition s) :=
  match Key.parse text with
  | none => .error (.malformedKey model.name text value)
  | some key =>
    match Rule.findIn? rules key.operator (key.columns.head?.getD "") value with
    | none => .error (.unrecognizedRule model.name text value)
    | some rule => ofRule rule model (key.columns.map (Column.ofText model)) value readers

mutual

/-- The readers of the documents in a value, one for each: the items of an array, or the value
itself. -/
def readersIn : Json → List (DocumentReader s)
  | .array items => nestedItemsIn items
  | .object fields =>
    [fun model => (ofFieldsIn fields model).mapError (Error.nested (.object fields) model.name)]
  | .null => [fun _ => .ok []]
  | other => [fun model => .error (.nested other model.name (notObject model other))]

/-- Reads a nested document and wraps its failure. -/
def nestedIn : Json → DocumentReader s
  | .object fields => fun model =>
    (ofFieldsIn fields model).mapError (Error.nested (.object fields) model.name)
  | .null => fun _ => .ok []
  | other => fun model => .error (.nested other model.name (notObject model other))

/-- The readers of nested documents one after the other. -/
def nestedItemsIn : List Json → List (DocumentReader s)
  | [] => []
  | item :: items => nestedIn item :: nestedItemsIn items

/-- Reads entries in their order. -/
def ofFieldsIn : List (String × Json) → DocumentReader s
  | [] => fun _ => .ok []
  | (key, value) :: fields => fun model => do
    let condition ← ofEntryIn rules model key value (readersIn value)
    let conditions ← ofFieldsIn fields model
    return condition :: conditions

end

/-- The readers of items are the nested readers of each. -/
theorem nestedItemsIn_eq_map (items : List Json) :
    nestedItemsIn (s := s) rules items = items.map (nestedIn rules) := by
  induction items with
  | nil => simp [nestedItemsIn]
  | cons item items ih => simp [nestedItemsIn, ih]

/-- A value holds the documents that its items are. -/
theorem readersIn_eq_map (value : Json) :
    readersIn (s := s) rules value = (items value).map (nestedIn rules) := by
  cases value <;> simp [readersIn, items, nestedIn, nestedItemsIn_eq_map]

end ByRules

/-! ## By the rules of the grammar -/

/-- Reads one entry, given the readers of the documents in its value. -/
def ofEntry : (model : Model s) → (text : String) → (value : Json) →
    (readers : List (DocumentReader s)) → Except Error (Condition s) :=
  ofEntryIn Rule.table

/-- The readers of the documents in a value, one for each. -/
def readersOf : Json → List (DocumentReader s) := readersIn Rule.table

/-- Reads a nested document and wraps its failure. -/
def nested : Json → DocumentReader s := nestedIn Rule.table

/-- Reads entries in their order. -/
def ofFields : List (String × Json) → DocumentReader s := ofFieldsIn Rule.table

/-- Reads a value as a query document: an object, or null for the document without entries. -/
def ofDocument : Json → DocumentReader s
  | .object fields => ofFields fields
  | .null => fun _ => .ok []
  | other => fun model => .error (notObject model other)

/-- An entry is read by its key, and by the rule that the grammar has for key and value. -/
theorem ofEntry_eq (model : Model s) (text : String) (value : Json)
    (readers : List (DocumentReader s)) : ofEntry model text value readers =
      match Key.parse text with
      | none => .error (.malformedKey model.name text value)
      | some key =>
        match Rule.find? key.operator (key.columns.head?.getD "") value with
        | none => .error (.unrecognizedRule model.name text value)
        | some rule => ofRule rule model (key.columns.map (Column.ofText model)) value readers := rfl

theorem ofFields_nil (model : Model s) : ofFields [] model = .ok [] := rfl

theorem ofFields_cons (key : String) (value : Json) (fields : List (String × Json))
    (model : Model s) : ofFields ((key, value) :: fields) model = (do
      let condition ← ofEntry model key value (readersOf value)
      let conditions ← ofFields fields model
      return condition :: conditions) := rfl

/-- A nested document is read as a document is, and its failure is wrapped with it. -/
theorem nested_eq (value : Json) (model : Model s) :
    nested value model
      = (ofDocument value model).mapError (Error.nested value model.name) := by
  cases value <;> rfl

/-- A value holds the documents that its items are. -/
theorem readersOf_eq_map (value : Json) :
    readersOf (s := s) value = (items value).map nested :=
  readersIn_eq_map Rule.table value

end Condition

end DocQuery
