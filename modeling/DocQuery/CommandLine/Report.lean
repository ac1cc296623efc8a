import DocQuery.Json.Writer
import DocQuery.Positional
import DocQuery.Query

/-!
# Reports

What the commands print about a query, a plan and the grammar.
-/

namespace DocQuery

namespace CommandLine

/-- Texts as lines. -/
def unlines (lines : List String) : String := String.join (lines.map (· ++ "\n"))

/-- The text without a carriage return at its end. -/
def dropReturn (cs : List Char) : List Char :=
  if cs.getLast? = some '\r' then cs.dropLast else cs

/-- The lines of a text in which every line is ended. -/
def endedLines (text : String) : List String :=
  (text.toList.splitOn '\n').dropLast.map fun line => String.ofList (dropReturn line)

/-- The text filled up with blanks. -/
def padded (width : Nat) (text : String) : String :=
  text ++ String.ofList (List.replicate (width - text.length) ' ')

/-- A titled list, set off by a blank line, if there is something in it. -/
def listSection (title : String) (entries : List String) : List String :=
  if entries.isEmpty then [] else ["", title] ++ entries.map ("  " ++ ·)

/-! ## Plans -/

/-- A value and the mark that stands for it. -/
def bindingLine (mark : String) (value : Operand) : String := mark ++ " = " ++ value.literal

/-- The statement and its values, by name or by position. -/
def statementLines (p : Plan) : Option PlaceholderStyle → List String
  | none =>
    p.toSql :: listSection "Bindings:" (p.bindings.map fun b => bindingLine (":" ++ b.1) b.2)
  | some style =>
    let positional := p.toPositional style
    let values := positional.values.zipIdx.map fun value =>
      bindingLine ("$" ++ toString (value.2 + 1)) value.1
    positional.sql :: listSection "Bindings:" values

/-- A plan for a reader, the placeholders in the style of a database if one is named. -/
def planReport (p : Plan) (url : Option String) : String :=
  unlines (["Generated SQL:"] ++ statementLines p (url.map PlaceholderStyle.forUrl)
    ++ listSection "Includes:" p.includes.paths)

/-! ## Explanations -/

/-- What is explained of a query before it is read. -/
def queryLines (model : String) (query : Json) : List String :=
  ["SMQL Query Explanation", "", "Model: " ++ model, "Query: " ++ query.compact, ""]

/-- What is explained of a query's conditions. -/
def conditionLines {s : Schema} (conditions : List (Condition s)) : List String :=
  ["Conditions:"] ++ conditions.map fun c => "  • " ++ c.name

/-- What is explained of a query's plan. -/
def planLines (p : Plan) : List String :=
  let tree := if p.predicate.isEmpty then ["(none)"] else endedLines p.predicate.pretty
  listSection "Predicate tree:" tree ++ listSection "Joins:" p.joins
    ++ listSection "Generated SQL:" [p.toSql]

/-- Explains a query as far as it can be compiled, and says what stopped it. -/
def explanation (s : Schema) (model : String) (query : Json) (config : Config) :
    String × Option Error :=
  let opening := queryLines model query
  match Query.parse s model query with
  | .error e => (unlines opening, some e)
  | .ok conditions =>
    let described := opening ++ conditionLines conditions
    match Query.compile s model query config with
    | .error e => (unlines described, some e)
    | .ok plan => (unlines (described ++ planLines plan), none)

/-! ## The grammar -/

/-- A row of the table of rules. -/
def ruleRow (operator name shapes meaning : String) : String :=
  " ".intercalate [padded 8 operator, padded 20 name, padded 28 shapes, meaning]

/-- The names of shapes in a table. -/
def shapeNames (shapes : List Shape) : String := ", ".intercalate (shapes.map Shape.name)

/-- The operators and functions of the grammar. -/
def grammarReport : String :=
  let rules := Rule.table.map fun rule =>
    ruleRow (if rule.operator.isEmpty then "(none)" else rule.operator) rule.name
      (shapeNames rule.shapes) rule.description
  let functions := FunctionName.all.map fun f => padded 8 f.text ++ " " ++ shapeNames f.shapes
  unlines (["SMQL Operator Reference", "", ruleRow "Operator" "Rule" "Accepts" "Meaning",
    String.ofList (List.replicate 96 '─')] ++ rules
    ++ listSection "Functions (key `<name>:`)" functions)

end CommandLine

end DocQuery
