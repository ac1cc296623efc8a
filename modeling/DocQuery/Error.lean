import DocQuery.Json.Inspect

/-!
# Errors

What can go wrong between a query document and its plan. An error is a cause; its wording
(`Error.message`) and the data given to a client (`Error.data`) are functions of the cause. An error
inside a nested document is wrapped once for every document around it.
-/

namespace DocQuery

/-- What a column path was expected to lead to. -/
inductive Expectation where
  | column
  | relation
  | directRelation
  | columnOrRelation
deriving DecidableEq, Repr

/-- Why a value is not acceptable for its column. -/
inductive ValueFault where
  | notTimestamp (text : String)
  | notBindable (value : Json)
  | emptyList
  | notPair
  | unpairedColumns
  | severalRelations
  | documentOnColumn
  | queryNotObject (value : Json)
  | notOrder (value : Json)
  | spanStart (value : Option Json)
  | spanEnd (value : Option Json)
  | durationOutOfRange
deriving Repr

/-- What a relation's definition lacks. -/
inductive MissingPart where
  | through
  | source
  | throughRelation (name : String)
  | throughTarget (name : String)
  | sourceRelation (name : String)
  | target
  | foreignKey
  | joinTable
  | associationForeignKey
deriving DecidableEq, Repr

/-- Why a schema cannot be used, or a model not be found in it. -/
inductive SchemaFault where
  | unreadable
  | missing (model relation : String) (part : MissingPart)
  | nestedThrough (model relation : String)
  | unknownTarget (model relation target : String)
  | unknownModel (model : String)
  | baseToItself (path : String)
deriving DecidableEq, Repr

/-- Why a configuration cannot be used. -/
inductive ConfigFault where
  | unreadable
  | notRead (path reason : String)
  | emptyAliasStem
  | badParamStem (stem : String)
  | identifiersTooShort (length : Nat) (stem : String)
deriving DecidableEq, Repr

/-- A failure to read, compile or load. -/
inductive Error where
  /-- A key in which no column is found. -/
  | malformedKey (model key : String) (value : Json)
  /-- A key and a value that no rule of the grammar accepts together. -/
  | unrecognizedRule (model key : String) (value : Json)
  | unknownColumn (expected : Expectation) (model column : String)
  | unknownRelation (expected : Expectation) (model column : String)
  /-- A path over a name that the schema hides. -/
  | protectedColumn (model column : String)
  /-- An order, limit or offset below the root of its query. -/
  | functionBelowRoot (function path : String)
  /-- A relation of a kind that cannot be joined. -/
  | unknownRelationKind (model relation kind : String)
  /-- A failure inside the nested document `query`, read against `model`. -/
  | nested (query : Json) (model : String) (source : Error)
  | invalidValue (column : String) (fault : ValueFault)
  | schema (fault : SchemaFault)
  | config (fault : ConfigFault)
  /-- A file that could not be read, with the system's reason. -/
  | file (reason : String)
  /-- A query text that is not JSON. -/
  | notJson
deriving Repr

def Expectation.text : Expectation → String
  | column => "column"
  | relation => "relation"
  | directRelation => "direct relation"
  | columnOrRelation => "column or relation"

def ValueFault.message : ValueFault → String
  | notTimestamp text => "'" ++ text ++ "' is not a timestamp"
  | notBindable value => value.compact ++ " cannot be bound as a parameter"
  | emptyList => "empty value list"
  | notPair => "expected [begin, end]"
  | unpairedColumns => "overlap needs start|end column pairs"
  | severalRelations => "sub-equal-join takes one relation"
  | documentOnColumn => "nested document on a plain column"
  | queryNotObject value => "query must be an object, got " ++ value.compact
  | notOrder value => "cannot order by " ++ value.compact
  | spanStart value => "unexpected start value " ++ Json.inspectOption value
  | spanEnd value => "unexpected type for end value " ++ Json.inspectOption value
  | durationOutOfRange => "duration out of range"

def MissingPart.text : MissingPart → String
  | through => "through"
  | source => "source"
  | throughRelation name => "relation '" ++ name ++ "' named by through"
  | throughTarget name => "target of '" ++ name ++ "'"
  | sourceRelation name => "source relation '" ++ name ++ "'"
  | target => "target"
  | foreignKey => "foreign_key"
  | joinTable => "join_table"
  | associationForeignKey => "association_foreign_key"

def SchemaFault.message : SchemaFault → String
  | unreadable => "the document is no schema"
  | missing model relation part => model ++ "." ++ relation ++ ": missing " ++ part.text
  | nestedThrough model relation =>
    model ++ "." ++ relation ++ ": nested through relations are not supported"
  | unknownTarget model relation target =>
    model ++ "." ++ relation ++ ": unknown target model '" ++ target ++ "'"
  | unknownModel model => "unknown model '" ++ model ++ "'"
  | baseToItself path => "cannot join the base table " ++ path ++ " to itself"

def ConfigFault.message : ConfigFault → String
  | unreadable => "the document is no configuration"
  | notRead path reason => "Failed to read " ++ path ++ ": " ++ reason
  | emptyAliasStem => "alias_prefix must not be empty"
  | badParamStem stem =>
    "param_prefix '" ++ stem ++ "' must be a non-empty identifier without digits"
  | identifiersTooShort length stem =>
    "max_identifier_len " ++ toString length ++ " is too small for alias prefix '" ++ stem ++ "'"

namespace Error

/-- The name of the error's class. -/
def kind : Error → String
  | malformedKey .. => "MalformedOperator"
  | unrecognizedRule .. => "UnrecognizedRule"
  | unknownColumn .. => "UnknownColumn"
  | unknownRelation .. => "UnknownRelation"
  | protectedColumn .. => "ProtectedColumnAccess"
  | functionBelowRoot .. => "RootOnlyFunctionMisuse"
  | unknownRelationKind .. => "UnknownSchemaRelationKind"
  | nested .. => "NestedQueryFailure"
  | invalidValue .. => "InvalidValue"
  | schema .. => "Schema"
  | config .. => "Config"
  | file .. => "Io"
  | notJson => "Json"

/-- The error in words. -/
def message : Error → String
  | malformedKey model key _ => "Malformed operator in '" ++ key ++ "' on " ++ model
  | unrecognizedRule model key value =>
    "Unrecognized operator/value combination: " ++ key ++ " => " ++ value.compact ++ " on "
      ++ model
  | unknownColumn expected model column =>
    "Unknown column '" ++ column ++ "' on " ++ model ++ " (expected " ++ expected.text ++ ")"
  | unknownRelation expected model column =>
    "Unknown relation '" ++ column ++ "' on " ++ model ++ " (expected " ++ expected.text ++ ")"
  | protectedColumn model column => "Access to protected column '" ++ column ++ "' on " ++ model
  | functionBelowRoot function path =>
    "Function '" ++ function ++ "' is only allowed on the root query (table path " ++ path ++ ")"
  | unknownRelationKind model relation kind =>
    "Unknown reflection '" ++ kind ++ "' for " ++ model ++ "." ++ relation
  | nested _ model source => "Nested query on " ++ model ++ " failed: " ++ source.message
  | invalidValue column fault => "Invalid value for '" ++ column ++ "': " ++ fault.message
  | schema fault => "Schema error: " ++ fault.message
  | config fault => "Configuration error: " ++ fault.message
  | file reason => "IO error: " ++ reason
  | notJson => "JSON error: the text is no JSON document"

/-- The error's parts, for a client. -/
def data : Error → Json
  | malformedKey model key value | unrecognizedRule model key value =>
    .object [("got", .object [(key, value)]), ("model", .string model)]
  | unknownColumn expected model column | unknownRelation expected model column =>
    .object [("expected", .string expected.text), ("got", .string column),
      ("model", .string model)]
  | protectedColumn model column =>
    .object [("protected_column", .string column), ("model", .string model)]
  | functionBelowRoot function path =>
    .object [("function", .string function), ("path", .string path)]
  | unknownRelationKind model relation kind =>
    .object [("model", .string model), ("relation", .string relation), ("kind", .string kind)]
  | nested query model source =>
    .object [("query", query), ("model", .string model),
      ("exception", .object [("kind", .string source.kind), ("message", .string source.message),
        ("data", source.data)])]
  | invalidValue column fault =>
    .object [("column", .string column), ("message", .string fault.message)]
  | schema fault => .object [("message", .string (schema fault).message)]
  | config fault => .object [("message", .string (config fault).message)]
  | file reason => .object [("message", .string (file reason).message)]
  | notJson => .object [("message", .string notJson.message)]

/-- The error inside all wrappers. -/
def rootCause : Error → Error
  | nested _ _ source => source.rootCause
  | e => e

/-- The errors and reasons that led to this one, innermost last, as a chain of messages shows
them. -/
def causes : Error → List String
  | nested _ _ source => source.message :: source.causes
  | file reason => [reason]
  | _ => []

end Error

end DocQuery
