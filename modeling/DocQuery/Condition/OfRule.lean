import DocQuery.Condition.Basic
import DocQuery.Text.Blank

/-!
# Conditions of rules

Once a rule is chosen, `Condition.ofRule` makes the condition: it checks the columns, converts the
values and reads the nested documents. Nested documents come as readers, one for each document in
the value, which turn a model into the conditions of the document on that model.
-/

namespace DocQuery

/-- Reads one document against a model. -/
abbrev DocumentReader (s : Schema) := Model s → Except Error (List (Condition s))

namespace Column

variable {s : Schema}

/-- The error of a column that does not lead where it should. -/
def unknownColumn (c : Column s) (expected : Expectation) : Error :=
  .unknownColumn expected c.model.name c.text

/-- The error of a column that does not lead to a relation. -/
def unknownRelation (c : Column s) (expected : Expectation) : Error :=
  .unknownRelation expected c.model.name c.text

/-- Succeeds if queries may reach the column. -/
def checkAllowed (c : Column s) : Except Error Unit :=
  if c.isProtected then .error (.protectedColumn c.model.name c.text) else .ok ()

/-- Succeeds if the column exists and queries may reach it. -/
def check (c : Column s) : Except Error Unit :=
  if c.isColumn then c.checkAllowed else .error (c.unknownColumn .column)

/-- Succeeds if all columns do. -/
def checkAll : List (Column s) → Except Error Unit
  | [] => .ok ()
  | c :: columns => do
    c.check
    checkAll columns

/-- The columns in a message. -/
def label (columns : List (Column s)) : String := "|".intercalate (columns.map text)

end Column

namespace OrderEntry

/-- A column and perhaps a direction, both as written. -/
abbrev Written := String × Option String

/-- The column and the direction at the start of a text. -/
def ofText (spec : String) : Written :=
  match words spec.toList with
  | [] => ("", none)
  | [column] => (String.ofList column, none)
  | column :: direction :: _ => (String.ofList column, some (String.ofList direction))

/-- An entry of an array. -/
def ofItem : Json → Except Error Written
  | .string s => .ok (ofText s)
  | .array [.string column] => .ok (column, none)
  | .array [.string column, .string direction] => .ok (column, some direction)
  | other => .error (.invalidValue "order" (.notOrder other))

/-- An entry of an object. -/
def ofField : String × Json → Except Error Written
  | (column, .string direction) => .ok (column, some direction)
  | (column, .null) => .ok (column, none)
  | (_, other) => .error (.invalidValue "order" (.notOrder other))

/-- The entries of a value. -/
def ofJson : Json → Except Error (List Written)
  | .null => .ok []
  | .string s => .ok [ofText s]
  | .array items => items.mapM ofItem
  | .object fields => fields.mapM ofField
  | other => .error (.invalidValue "order" (.notOrder other))

/-- Only the word `desc`, in any case, asks for descending order. -/
def direction : Option String → Direction
  | some word =>
    if word.toList.map Char.toLower = "desc".toList then .descending else .ascending
  | none => .ascending

/-- The column and the direction of an entry. -/
def resolve {s : Schema} (model : Model s) (written : Written) :
    Except Error (Column s × Direction) := do
  let column := Column.ofText model written.1
  column.check
  return (column, direction written.2)

end OrderEntry

namespace Condition

variable {s : Schema}

/-- The documents or values in a value: the items of an array, or the value itself. -/
def items : Json → List Json
  | .array items => items
  | value => [value]

/-- Succeeds for a list with items. -/
def checkNonempty (label : String) (values : List Json) : Except Error Unit :=
  if values.isEmpty then .error (.invalidValue label .emptyList) else .ok ()

def ofComparison (rule template : String) (temporal : Bool) (columns : List (Column s))
    (value : Json) : Except Error (Condition s) := do
  Column.checkAll columns
  let label := Column.label columns
  let chronological := temporal && columns.any Column.isChronological
  checkNonempty label (items value)
  let values ← (items value).mapM fun v => Operand.bind label v chronological
  return .comparison rule template columns values

def ofPresence (rule template : String) (columns : List (Column s)) :
    Except Error (Condition s) := do
  Column.checkAll columns
  return .presence rule template columns

def ofMembership (rule template : String) (columns : List (Column s)) (value : Json) :
    Except Error (Condition s) := do
  Column.checkAll columns
  let label := Column.label columns
  checkNonempty label (items value)
  let values ← Operand.bind label value false
  return .membership rule template columns values

def ofRange (rule template : String) (columns : List (Column s)) (value : Json) :
    Except Error (Condition s) := do
  Column.checkAll columns
  let label := Column.label columns
  let chronological := columns.any Column.isChronological
  match items value with
  | [low, high] => do
    let low ← Operand.bind label low chronological
    let high ← Operand.bind label high chronological
    return .range rule template columns low high
  | _ => .error (.invalidValue label .notPair)

def ofOverlap (rule template : String) (columns : List (Column s)) (value : Json) :
    Except Error (Condition s) := do
  Column.checkAll columns
  let label := Column.label columns
  if columns.length % 2 = 1 then
    .error (.invalidValue label .unpairedColumns)
  else do
    let span ← TimeSpan.read label (items value)
    return .overlap rule template columns span

/-- A column that is followed as a relation, with the documents about its rows. -/
def joinTarget (readers : List (DocumentReader s)) (column : Column s) :
    Except Error (Target s (List (List (Condition s)))) :=
  match column.relationTarget? with
  | none => .error (column.unknownRelation .relation)
  | some target => do
    column.checkAllowed
    let documents ← readers.mapM fun read => read target
    return ⟨column, documents⟩

def ofRelationJoin (columns : List (Column s)) (readers : List (DocumentReader s)) :
    Except Error (Condition s) := do
  let targets ← columns.mapM (joinTarget readers)
  return .relationJoin targets

/-- The relation of a sub-query: one of the model's own that has no hops. -/
def directRelation (column : Column s) : Except Error (Relation s) :=
  match column.path, column.relation? with
  | [], some (.direct name owner definition link target) =>
    .ok (.direct name owner definition link target)
  | _, _ => .error (column.unknownRelation .directRelation)

/-- Reads a document that may be missing. -/
def readOptional (reader : Option (DocumentReader s)) (model : Model s) :
    Except Error (List (Condition s)) :=
  match reader with
  | some read => read model
  | none => .ok []

def ofDerivedJoin (columns : List (Column s)) (readers : List (DocumentReader s)) :
    Except Error (Condition s) :=
  match columns with
  | [column] => do
    let relation ← directRelation column
    column.checkAllowed
    let subquery ← readOptional readers[0]? relation.target
    let conditions ← readOptional readers[1]? relation.target
    return .derivedJoin column relation subquery conditions
  | columns => .error (.invalidValue (Column.label columns) .severalRelations)

/-- A column to select, or a relation to include. `document` reads the nested document, if there is
one with entries. -/
def selectTarget (document : Option (DocumentReader s)) (column : Column s) :
    Except Error (Target s (List (Condition s))) :=
  if column.isColumn then
    if document.isSome then .error (.invalidValue column.text .documentOnColumn)
    else do
      column.checkAllowed
      return ⟨column, []⟩
  else
    match column.relation? with
    | none => .error (column.unknownColumn .columnOrRelation)
    | some relation => do
      column.checkAllowed
      let nested ← readOptional document relation.target
      return ⟨column, nested⟩

/-- The value is an object with entries. -/
def hasEntries : Json → Bool
  | .object fields => !fields.isEmpty
  | _ => false

def ofSelect (columns : List (Column s)) (value : Json) (readers : List (DocumentReader s)) :
    Except Error (Condition s) := do
  let document := if hasEntries value then readers.head? else none
  let targets ← columns.mapM (selectTarget document)
  return .select targets

/-- The number of a limit or an offset. -/
def countOf : Json → Nat
  | .number (.int i) => i.toNat
  | _ => 0

def ofFunction (model : Model s) (columns : List (Column s)) (value : Json) :
    Except Error (Condition s) :=
  let name := (columns.head?.map Column.text).getD ""
  match FunctionName.find? name value with
  | some .order => do
    let written ← OrderEntry.ofJson value
    let entries ← written.mapM (OrderEntry.resolve model)
    return .order entries
  | some .limit => .ok (.limit (countOf value))
  | some .offset => .ok (.offset (countOf value))
  | none => .error (.unrecognizedRule model.name (name ++ ":") value)

/-- The condition that a rule makes of columns and a value. -/
def ofRule (rule : Rule) (model : Model s) (columns : List (Column s)) (value : Json)
    (readers : List (DocumentReader s)) : Except Error (Condition s) :=
  match rule.form with
  | .comparison template temporal => ofComparison rule.name template temporal columns value
  | .presence template => ofPresence rule.name template columns
  | .membership template => ofMembership rule.name template columns value
  | .range template => ofRange rule.name template columns value
  | .overlap template => ofOverlap rule.name template columns value
  | .relationJoin => ofRelationJoin columns readers
  | .derivedJoin => ofDerivedJoin columns readers
  | .select => ofSelect columns value readers
  | .function => ofFunction model columns value

end Condition

end DocQuery
