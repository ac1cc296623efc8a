import DocQuery.Condition.Build
import DocQuery.Condition.Document
import DocQuery.Json.Reader

/-!
# Queries

A query is a document about the rows of one model, the root. Parsing gives its conditions,
assembling the statement that they make, and compiling the plan of that statement.
-/

namespace DocQuery

namespace Query

/-- The model that a query is about. -/
def rootModel (s : Schema) (name : String) : Except Error (Model s) :=
  match s.model? name with
  | some model => .ok model
  | none => .error (.schema (.unknownModel name))

/-- The conditions of a query. -/
def parse (s : Schema) (model : String) (query : Json) : Except Error (List (Condition s)) := do
  let root ← rootModel s model
  Condition.ofDocument query root

/-- The statement that conditions on a model make. -/
def assemble {s : Schema} (root : Model s) (conditions : List (Condition s)) (config : Config) :
    Except Error Statement :=
  let start := Draft.new root config
  match (Condition.buildWhere conditions start.base).runOn start with
  | (.ok _, done) => .ok done.finish
  | (.error e, _) => .error e

/-- The plan of a query. -/
def compile (s : Schema) (model : String) (query : Json) (config : Config) : Except Error Plan := do
  let root ← rootModel s model
  let conditions ← Condition.ofDocument query root
  let statement ← assemble root conditions config
  return statement.toPlan config.quoteIdentifiers

/-- The plan of a query given as JSON text. -/
def compileText (s : Schema) (model query : String) (config : Config) : Except Error Plan :=
  match Json.parse query with
  | some query => compile s model query config
  | none => .error .notJson

end Query

end DocQuery
