import DocQuery.CommandLine.Arguments
import DocQuery.CommandLine.Report
import DocQuery.Schema.Document

/-!
# Sessions

One run of the program, from its words to its exit status. What lies outside, files, variables and
standard input, is reached through an `Environment`, so a session is a function of what it answers.
-/

namespace DocQuery

namespace CommandLine

/-- The outside of the program. -/
structure Environment (m : Type → Type) where
  /-- The text of a file, or the reason why there is none. -/
  fileText : String → m (Except String String)
  fileExists : String → m Bool
  readVariable : String → m (Option String)
  standardInput : m String

/-- What a session leaves behind. -/
structure Outcome where
  status : Nat
  output : String := ""
  errors : String := ""
deriving DecidableEq, Repr

/-- Why a command failed. -/
inductive Failure where
  /-- A cause outside the library. -/
  | reason (text : String)
  /-- A failure of the library, perhaps with what was being done. -/
  | library (activity : Option String) (error : Error)

namespace Failure

/-- The activity, the failure and its causes. -/
def chain : Failure → List String
  | reason text => [text]
  | library activity error => activity.toList ++ error.message :: error.causes

/-- The class of the failure and its data, where it has them. -/
def details : Failure → List String
  | reason _ => []
  | library _ error => ["[" ++ error.kind ++ "] " ++ error.data.compact]

/-- The failure for a reader. -/
def report (f : Failure) : String :=
  unlines (("Error: " ++ ": ".intercalate f.chain) :: f.details)

/-- What a failed command leaves behind. -/
def outcome (f : Failure) (output : String) : Outcome := ⟨1, output, f.report⟩

end Failure

/-- A step of a session. -/
abbrev Step (m : Type → Type) := ExceptT Failure m

/-- A result of the library in a session. -/
def ofLibrary {m : Type → Type} [Monad m] {α : Type} (activity : Option String)
    (result : Except Error α) : Step m α :=
  ExceptT.mk (pure (result.mapError (Failure.library activity)))

/-- A path below a directory. -/
def below (directory path : String) : String :=
  if directory.toList.getLast? = some '/' then directory ++ path else directory ++ "/" ++ path

/-- What follows the last point of a file's name, if something stands in front of that point. -/
def extension? (path : String) : Option String :=
  let reversed := path.toList.reverse.takeWhile (· != '/')
  let stem := (reversed.dropWhile (· != '.')).drop 1
  if stem.isEmpty then none
  else some (String.ofList (reversed.takeWhile (· != '.')).reverse)

section

variable {m : Type → Type} [Monad m] (env : Environment m)

/-- The configuration file below the home directory. -/
def homeConfigPath? : m (Option String) := do
  let home ← env.readVariable "HOME"
  return (home.filter (!·.isEmpty)).map (below · ".config/smql/config.toml")

/-- The configuration file that is used unless one is named. -/
def standardConfigPath? : m (Option String) := do
  match ← env.readVariable "SMQL_CONFIG" with
  | some path => return some path
  | none =>
    match ← env.readVariable "XDG_CONFIG_HOME" with
    | some directory =>
      if directory.toList.head? = some '/' then
        return some (below directory "smql/config.toml")
      else homeConfigPath? env
    | none => homeConfigPath? env

/-- Reads a configuration file. -/
def readConfig (path : String) : Step m Config := do
  match ← env.fileText path with
  | .ok text => ofLibrary none (Config.loadText text)
  | .error reason => throw (.library none (.config (.notRead path reason)))

/-- The configuration of a session. -/
def loadConfig (named : Option String) : Step m Config := do
  match named with
  | some path => readConfig env path
  | none =>
    match ← (standardConfigPath? env : m _) with
    | none => return {}
    | some path =>
      if ← env.fileExists path then readConfig env path else return {}

/-- Reads a schema file; its name tells the format. -/
def loadSchema (path : String) : Step m Schema := do
  let activity := "Failed to load schema " ++ path
  match ← env.fileText path with
  | .error reason => throw (.library (some activity) (.file reason))
  | .ok text =>
    ofLibrary (some activity)
      (if extension? path = some "toml" then Schema.loadToml text else Schema.loadText text)

/-- The text of a query: standard input for `-`, a file behind `@`, else the word itself. -/
def queryText (source : String) : Step m String := do
  match source.toList with
  | ['-'] => env.standardInput
  | '@' :: path =>
    match ← env.fileText (String.ofList path) with
    | .ok text => return text
    | .error reason =>
      throw (.reason ("Failed to read " ++ String.ofList path ++ ": " ++ reason))
  | _ => return source

/-- Loads the schema and the query of a command. -/
def load (source : QueryArguments) : Step m (Schema × Json) := do
  let schema ← loadSchema env source.schema
  match Json.parse (← queryText env source.query) with
  | some query => return (schema, query)
  | none => throw (.reason "Query is not valid JSON")

/-- The database of a run: the one named, else the variable's, else the configured one. -/
def databaseUrl (named : Option String) (config : Config) : m (Option String) := do
  return (named.or (← env.readVariable "SMQL_DATABASE_URL")).or config.databaseUrl

/-- Carries out a command. -/
def perform (config : Config) : Command → Step m Outcome
  | .compile source asJson positional => do
    let (schema, query) ← load env source
    let plan ← ofLibrary none (Query.compile schema source.model query config)
    return ⟨0, if asJson then plan.toJson.pretty ++ "\n" else planReport plan positional, ""⟩
  | .explain source => do
    let (schema, query) ← load env source
    match explanation schema source.model query config with
    | (output, none) => return ⟨0, output, ""⟩
    | (output, some e) => return (Failure.library none e).outcome output
  | .operators => return ⟨0, grammarReport, ""⟩
  | .run source named => do
    match ← (databaseUrl env named config : m _) with
    | none =>
      throw (.reason "No database URL. Use --database-url or set SMQL_DATABASE_URL")
    | some url => do
      let (schema, query) ← load env source
      let _ ← ofLibrary none (Query.compile schema source.model query config)
      throw (.reason ("No database driver for " ++ url))

/-- The name and version of the program. -/
def versionText : String := "smql 0.3.0"

/-- How the program is called. -/
def usageText : String :=
  unlines ["Usage: smql [-c CONFIG] [-v] COMMAND",
    "", "Commands:",
    "  compile -s SCHEMA -m MODEL QUERY [--json] [--positional URL]",
    "  explain -s SCHEMA -m MODEL QUERY",
    "  operators",
    "  run -s SCHEMA -m MODEL QUERY [--database-url URL] [-f table|json]",
    "", "QUERY is JSON text, @FILE or - for standard input."]

/-- What is left behind when there is no command to carry out. -/
def Refusal.outcome : Refusal → Outcome
  | .help => ⟨0, "", usageText⟩
  | .version => ⟨0, versionText ++ "\n", ""⟩
  | .usage => ⟨2, "", usageText⟩

/-- A whole session. -/
def session (words : List String) : m Outcome :=
  match parse words with
  | .error refusal => return refusal.outcome
  | .ok invocation => do
    let steps : Step m Outcome := do
      let config ← loadConfig env invocation.config
      perform env config invocation.command
    match ← steps.run with
    | .ok outcome => return outcome
    | .error failure => return failure.outcome ""

end

end CommandLine

end DocQuery
