import DocQuery.Column
import DocQuery.Config
import DocQuery.Draft.Alias
import DocQuery.Statement.Render
import DocQuery.TablePath

/-!
# Drafts

A draft is a statement in the making. It gives every table path one alias, joins every path at most
once, numbers the parameters and collects the clauses. A sub-query has a draft of its own, opened
from the outer one and absorbed by it, so that names stay unique across both.

The functions here are total: they take a draft to the next, with a result where there is one.
Steps that may fail are `Build` steps; a failing step keeps what it has done before it failed.
-/

namespace DocQuery

/-- A statement in the making. -/
structure Draft (s : Schema) where
  config : Config
  model : Model s
  base : TablePath
  baseAlias : String
  /-- The aliases of table paths, the latest first. -/
  aliases : List (TablePath × String)
  usedAliases : List String
  /-- The models of joined paths, the latest first. -/
  models : List (TablePath × Model s)
  joined : List TablePath
  /-- The number of the last parameter. -/
  lastParam : Nat
  select : List SelectItem
  joins : List (Join Statement) := []
  predicate : Predicate Test := default
  bindings : List Binding := []
  order : List OrderItem := []
  limit : Option Nat := none
  offset : Option Nat := none
  includes : List TablePath := []

/-- A step that may fail. -/
abbrev Build (s : Schema) := ExceptT Error (StateM (Draft s))

namespace Draft

variable {s : Schema}

/-- A draft over a base table known by an alias. -/
def withBase (model : Model s) (config : Config) (baseAlias : String) (usedAliases : List String)
    (lastParam : Nat) : Draft s :=
  let base := TablePath.root model.table
  { config, model, base, baseAlias
    aliases := [(base, baseAlias)]
    usedAliases := baseAlias :: usedAliases
    models := [(base, model)]
    joined := [base]
    lastParam
    select := [.rowsOf baseAlias] }

/-- A draft for a whole query; the base table is its own alias. -/
def new (model : Model s) (config : Config) : Draft s :=
  withBase model config model.table [] 0

/-- The model of a path that has been joined. -/
def modelAt? (d : Draft s) (path : TablePath) : Option (Model s) :=
  d.models.lookup path

/-- The path has been joined. -/
def isJoined (d : Draft s) (path : TablePath) : Bool := path ∈ d.joined

/-- An identifier as the configuration has it written. -/
def quote (d : Draft s) (name : String) : String :=
  identifier d.config.quoteIdentifiers name

/-- The statement that has been drafted. -/
def finish (d : Draft s) : Statement where
  model := d.model.name
  baseTable := d.model.table
  baseAlias := d.baseAlias
  select := d.select
  joins := d.joins
  predicate := d.predicate.normalize
  bindings := d.bindings
  order := d.order
  limit := d.limit
  offset := d.offset
  includes := IncludeTree.ofPaths (d.includes.map TablePath.relationNames)

/-- The plan of the statement. -/
def plan (d : Draft s) : Plan := d.finish.toPlan d.config.quoteIdentifiers

/-! ## Parameters -/

/-- The name of the next parameter. -/
def nextParam (d : Draft s) : String × Draft s :=
  (d.config.paramStem ++ toString (d.lastParam + 1), { d with lastParam := d.lastParam + 1 })

/-- Binds a value to the next parameter and gives the parameter's name. -/
def bind (d : Draft s) (value : Operand) : String × Draft s :=
  let (name, d) := d.nextParam
  (name, { d with bindings := d.bindings ++ [(name, value)] })

/-- Binds values to the next parameters, one each. -/
def bindAll (d : Draft s) : List Operand → List String × Draft s
  | [] => ([], d)
  | value :: values =>
    let (name, d) := d.bind value
    let (names, d) := d.bindAll values
    (name :: names, d)

/-! ## Aliases -/

/-- The alias that a path has if it is free. -/
def wantedAlias (config : Config) (path : TablePath) : String :=
  config.aliasStem ++ "_" ++ "_".intercalate ((path.steps.drop 1).map PathStep.aliasPart)

/-- Gives a path the alias of another. -/
def setAlias (d : Draft s) (path : TablePath) (tableAlias : String) : Draft s :=
  { d with aliases := (path, tableAlias) :: d.aliases }

/-- Takes an alias for a wanted text into use. -/
def takeAlias (d : Draft s) (wanted : String) : String × Draft s :=
  let made := freshAlias d.config.maxIdentifierLength d.usedAliases wanted
  (made, { d with usedAliases := made :: d.usedAliases })

/-- The alias of a path, made on first use. -/
def aliasOf (d : Draft s) (path : TablePath) : String × Draft s :=
  match d.aliases.lookup path with
  | some found => (found, d)
  | none =>
    let (made, d) := d.takeAlias (wantedAlias d.config path)
    (made, d.setAlias path made)

/-- A column of the table at a path. -/
def columnAt (d : Draft s) (path : TablePath) (name : String) : QualifiedColumn × Draft s :=
  let (tableAlias, d) := d.aliasOf path
  (⟨tableAlias, name⟩, d)

/-! ## Clauses -/

/-- Adds to the select list what is not yet there. -/
def addSelect (d : Draft s) (item : SelectItem) : Draft s :=
  let quoted := d.config.quoteIdentifiers
  if d.select.any fun other => other.toSql quoted == item.toSql quoted then d
  else { d with select := d.select ++ [item] }

/-- Orders by a column. A column of a joined table is selected too, as rows are only told apart by
what is selected. -/
def addOrder (d : Draft s) (path : TablePath) (name : String) (direction : Direction) : Draft s :=
  let (column, d) := d.columnAt path name
  let d := if path = d.base then d else d.addSelect (.column column)
  { d with order := d.order ++ [⟨column, direction⟩] }

/-- Asks for the relation at a path to be loaded. -/
def addInclude (d : Draft s) (path : TablePath) : Draft s :=
  if path ∈ d.includes then d else { d with includes := d.includes ++ [path] }

def setLimit (d : Draft s) (n : Nat) : Draft s := { d with limit := some n }

def setOffset (d : Draft s) (n : Nat) : Draft s := { d with offset := some n }

/-- Adds a tree to the WHERE clause. -/
def pushWhere (d : Draft s) (tree : Predicate Test) : Draft s :=
  { d with predicate := d.predicate.push tree }

def addJoin (d : Draft s) (join : Join Statement) : Draft s :=
  { d with joins := d.joins ++ [join] }

/-- Records that a path leads to joined rows of a model. -/
def markJoined (d : Draft s) (path : TablePath) (model : Model s) : Draft s :=
  { d with models := (path, model) :: d.models, joined := path :: d.joined }

/-! ## Sub-queries -/

/-- A draft for a sub-query that stands at a path. Its parameters are numbered on from this one's,
and its aliases differ from all used so far. -/
def openNested (d : Draft s) (model : Model s) (place : TablePath) : Draft s × Draft s :=
  let (baseAlias, d) := d.aliasOf (place.child (.base model.table))
  (withBase model d.config baseAlias d.usedAliases d.lastParam, d)

/-- Takes over the parameters of a sub-query, and those of its aliases that are new: it was opened
with all that had been used before. -/
def absorb (d sub : Draft s) : Draft s :=
  { d with
    lastParam := max d.lastParam sub.lastParam
    bindings := d.bindings ++ sub.bindings
    usedAliases := sub.usedAliases.filter (· ∉ d.usedAliases) ++ d.usedAliases }

end Draft

namespace Build

variable {s : Schema}

/-- Runs a step on a draft. -/
def runOn {α : Type} (step : Build s α) (d : Draft s) : Except Error α × Draft s :=
  (ExceptT.run step).run d

/-- Runs a step on another draft and gives back its result and that draft. If the step fails, so
does this one. -/
def within {α : Type} (sub : Draft s) (step : Build s α) : Build s (α × Draft s) :=
  match step.runOn sub with
  | (.ok value, sub) => pure (value, sub)
  | (.error e, _) => throw e

end Build

end DocQuery
