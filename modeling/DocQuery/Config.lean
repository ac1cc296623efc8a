import DocQuery.Error
import DocQuery.Toml.Reader

/-!
# Configuration

The names that the compiler generates, and how identifiers are written. A configuration is checked
before use: there must be room for an alias' stem, a separator and a counter, and a parameter's stem
must not run into its number.
-/

namespace DocQuery

/-- Settings of a compilation. -/
structure Config where
  /-- What generated aliases start with. -/
  aliasStem : String := "smql"
  /-- What parameter names start with; a number follows. -/
  paramStem : String := "p"
  /-- The longest alias in bytes. -/
  maxIdentifierLength : Nat := 63
  /-- Whether identifiers are written in double quotes. -/
  quoteIdentifiers : Bool := false
  logPlans : Bool := false
  databaseUrl : Option String := none
deriving DecidableEq, Repr, Inhabited

namespace Config

/-- Bytes that an alias needs beyond its stem. -/
def aliasRoom : Nat := 8

/-- A character of a parameter's stem. -/
def isStemChar (c : Char) : Bool := c.isAlpha || c == '_'

/-- Succeeds for a usable configuration and reports the first fault of any other. -/
def validate (c : Config) : Except Error Unit :=
  if c.aliasStem.isEmpty then .error (.config .emptyAliasStem)
  else if c.paramStem.isEmpty ∨ ¬ c.paramStem.toList.all isStemChar then
    .error (.config (.badParamStem c.paramStem))
  else if c.maxIdentifierLength < c.aliasStem.utf8ByteSize + aliasRoom then
    .error (.config (.identifiersTooShort c.maxIdentifierLength c.aliasStem))
  else .ok ()

/-- The configuration, if it is usable. -/
def validated (c : Config) : Except Error Config := do
  c.validate
  return c

/-- A setting of a document, or its default. -/
def setting {α : Type} (document : Toml) (key : String) (read : Toml → Option α) (default : α) :
    Option α :=
  match document.get? key with
  | some value => read value
  | none => some default

def readText : Toml → Option String
  | .string s => some s
  | _ => none

def readFlag : Toml → Option Bool
  | .boolean b => some b
  | _ => none

def readLength : Toml → Option Nat
  | .integer i => if 0 ≤ i then some i.toNat else none
  | _ => none

/-- The settings of a document; other keys are ignored. -/
def ofDocument? (document : Toml) : Option Config := do
  let standard : Config := {}
  let aliasStem ← setting document "alias_prefix" readText standard.aliasStem
  let paramStem ← setting document "param_prefix" readText standard.paramStem
  let maxIdentifierLength ←
    setting document "max_identifier_len" readLength standard.maxIdentifierLength
  let quoteIdentifiers ←
    setting document "quote_identifiers" readFlag standard.quoteIdentifiers
  let logPlans ← setting document "log_plans" readFlag standard.logPlans
  let databaseUrl ←
    setting document "database_url" (fun v => (readText v).map some) standard.databaseUrl
  some ⟨aliasStem, paramStem, maxIdentifierLength, quoteIdentifiers, logPlans, databaseUrl⟩

/-- Reads the text of a document; the configuration must be usable. -/
def loadText (text : String) : Except Error Config :=
  match (Toml.parse text).bind ofDocument? with
  | some c => c.validated
  | none => .error (.config .unreadable)

end Config

end DocQuery
