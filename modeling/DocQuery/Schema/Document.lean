import DocQuery.Json.Reader
import DocQuery.Schema.Source
import DocQuery.Schema.Validate
import DocQuery.Toml.Reader

/-!
# Schema documents

A schema read from a source and written as a JSON value. Reading is the looser side: a record may be
given as a list of its fields in order; unknown fields are ignored, whatever they hold; a column may
be given by its name alone; kinds of relation have several names. Writing gives every field of every
record.
-/

namespace DocQuery

namespace Schema.Document

/-- The value of a text. -/
def readText : Source → Option String
  | .text s => some s
  | _ => none

/-- The value of a text that may be null. -/
def readOptionalText : Source → Option (Option String)
  | .null => some none
  | .text s => some (some s)
  | _ => none

/-- Reads each item of a list. -/
def readList {α : Type} (readItem : Source → Option α) : Source → Option (List α)
  | .list _ items => items.mapM readItem
  | _ => none

/-- Reads the values of a record under their names; of equal names the last counts. -/
def readDictionary {α : Type} (readItem : Source → Option α) : Source → Option (Dictionary α)
  | .record fields =>
    (fields.mapM fun field => (readItem field.2).map fun value => (field.1, value)).map
      Dictionary.ofList
  | _ => none

/-- The fields with the given names. Repeating one of them is an error. -/
def knownFields (names : List String) (fields : List (String × Source)) :
    Option (List (String × Source)) :=
  let known := fields.filter fun field => names.contains field.1
  if (known.map (·.1)).Nodup then some known else none

/-- The fields of a record with the given field names. -/
def readRecord (names : List String) : Source → Option (List (String × Source))
  | .record fields => knownFields names fields
  | .list surplus items =>
    if surplus ∨ items.length ≤ names.length then some (names.zip items) else none
  | _ => none

/-- Reads a field that must be there. -/
def required {α : Type} (fields : List (String × Source)) (name : String)
    (readValue : Source → Option α) : Option α :=
  (Json.lookup? fields name).bind readValue

/-- Reads a field that has a default. -/
def optional {α : Type} (fields : List (String × Source)) (name : String)
    (readValue : Source → Option α) (default : α) : Option α :=
  match Json.lookup? fields name with
  | some value => readValue value
  | none => some default

/-- Reads a column: its name, or a record with its name and type, all of which must be readable. The
type may be called `typ`. -/
def readColumn : Source → Option ColumnDefinition
  | .text name => some ⟨name, ""⟩
  | .record fields => do
    guard (Source.fieldsReadable fields)
    let fields := fields.map fun field => (if field.1 = "typ" then "type" else field.1, field.2)
    let fields ← knownFields ["name", "type"] fields
    let name ← required fields "name" readText
    let type ← optional fields "type" readText ""
    some ⟨name, type⟩
  | _ => none

/-- The field names of a relation. -/
def relationFields : List String :=
  ["kind", "target", "foreign_key", "join_table", "association_foreign_key", "through", "source"]

def readRelation (value : Source) : Option RelationDefinition := do
  let fields ← readRecord relationFields value
  let kind ← required fields "kind" readText
  let target ← optional fields "target" readOptionalText none
  let foreignKey ← optional fields "foreign_key" readOptionalText none
  let joinTable ← optional fields "join_table" readOptionalText none
  let associationForeignKey ← optional fields "association_foreign_key" readOptionalText none
  let through ← optional fields "through" readOptionalText none
  let source ← optional fields "source" readOptionalText none
  some ⟨.ofText kind, target, foreignKey, joinTable, associationForeignKey, through, source⟩

/-- The field names of a model. -/
def modelFields : List String := ["table", "primary_key", "columns", "relations", "protected"]

def readModel (value : Source) : Option ModelDefinition := do
  let fields ← readRecord modelFields value
  let table ← required fields "table" readText
  let primaryKey ← optional fields "primary_key" readText "id"
  let columns ← optional fields "columns" (readList readColumn) []
  let relations ← optional fields "relations" (readDictionary readRelation) ∅
  let hidden ← optional fields "protected" (readList readText) []
  some ⟨table, primaryKey, columns, relations, hidden⟩

/-- Reads a schema from its source. -/
def readSchema (value : Source) : Option Schema := do
  let fields ← readRecord ["models"] value
  let models ← optional fields "models" (readDictionary readModel) ∅
  some ⟨models⟩

/-- Writes a text that may be absent. -/
def writeOptionalText : Option String → Json
  | none => .null
  | some s => .string s

def writeColumn (c : ColumnDefinition) : Json :=
  .object [("name", .string c.name), ("type", .string c.type)]

def writeRelation (r : RelationDefinition) : Json :=
  .object
    [("kind", .string r.kind.text),
      ("target", writeOptionalText r.target),
      ("foreign_key", writeOptionalText r.foreignKey),
      ("join_table", writeOptionalText r.joinTable),
      ("association_foreign_key", writeOptionalText r.associationForeignKey),
      ("through", writeOptionalText r.through),
      ("source", writeOptionalText r.source)]

/-- Writes the values of a dictionary under their names. -/
def writeDictionary {α : Type} (writeItem : α → Json) (d : Dictionary α) : Json :=
  .object (d.entries.map fun entry => (entry.1, writeItem entry.2))

def writeModel (m : ModelDefinition) : Json :=
  .object
    [("table", .string m.table),
      ("primary_key", .string m.primaryKey),
      ("columns", .array (m.columns.map writeColumn)),
      ("relations", writeDictionary writeRelation m.relations),
      ("protected", .array (m.hidden.map Json.string))]

/-- Writes a schema as its document. -/
def writeSchema (s : Schema) : Json :=
  .object [("models", writeDictionary writeModel s.models)]

end Schema.Document

namespace Schema

/-- Reads a source without checking what it says. -/
def ofSource (source : Source) : Except Error Schema :=
  match Document.readSchema source with
  | some s => .ok s
  | none => .error (.schema .unreadable)

/-- Reads a document without checking what it says. -/
def ofDocument (value : Json) : Except Error Schema := ofSource (.ofJson value)

/-- Reads the text of a document without checking what it says. -/
def ofText (text : String) : Except Error Schema :=
  match Json.readRaw text with
  | some raw => ofSource (.ofRaw raw)
  | none => .error (.schema .unreadable)

/-- A text that denotes a value is read as that value is. -/
theorem ofText_eq_ofDocument {text : String} {value : Json} (h : Json.read text = some value) :
    ofText text = ofDocument value := by
  obtain ⟨raw, hr, hv⟩ := Option.bind_eq_some_iff.1 h
  simp only [ofText, hr, ofDocument, Source.ofRaw_eq_ofJson hv]

/-- Reads a document in TOML without checking what it says. -/
def ofToml (text : String) : Except Error Schema :=
  match Toml.parse text with
  | some value => ofSource (.ofToml value)
  | none => .error (.schema .unreadable)

/-- The schema, if it is valid. -/
def validated (s : Schema) : Except Error Schema := do
  s.validate
  return s

/-- Reads a document; the schema must be valid. -/
def load (value : Json) : Except Error Schema := do
  (← ofDocument value).validated

/-- Reads the text of a document; the schema must be valid. -/
def loadText (text : String) : Except Error Schema := do
  (← ofText text).validated

/-- Reads a document in TOML; the schema must be valid. -/
def loadToml (text : String) : Except Error Schema := do
  (← ofToml text).validated

end Schema

end DocQuery
