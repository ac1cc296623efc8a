import DocQuery.Plan
import DocQuery.Text.WordChar

/-!
# Positional placeholders

A plan names its parameters; databases take values by position. The statement is split into the
occurrences of parameters and the text between them, and every occurrence is replaced by one mark
for each single value that the parameter stands for.
-/

namespace DocQuery

/-- How a database marks the place of a value. -/
inductive PlaceholderStyle where
  /-- Marks `$1`, `$2` and so on; a parameter keeps its marks wherever it occurs. -/
  | dollar
  /-- Marks `?`, each for a value of its own. -/
  | question
deriving DecidableEq, Repr

/-- The style of the database at a URL. -/
def PlaceholderStyle.forUrl (url : String) : PlaceholderStyle :=
  if "mysql:".toList.isPrefixOf url.toList || "mariadb:".toList.isPrefixOf url.toList then
    .question
  else .dollar

/-- A statement with positional marks and the values for them in order. -/
structure PositionalQuery where
  sql : String
  values : List Operand

namespace PositionalQuery

/-- A part of a statement's text. -/
inductive Piece where
  | char (c : Char)
  /-- A colon and the name of a parameter with this value. -/
  | parameter (name : String) (value : Operand)

/-- The name behind a colon: the longest run of word characters. -/
def nameAt (cs : List Char) : String := String.ofList (cs.takeWhile isWordChar)

/-- The pieces of a text. A colon in front of anything but the whole name of a parameter is text
like any other. -/
def pieces (bindings : List (String × Operand)) : List Char → List Piece
  | [] => []
  | c :: rest =>
    if c = ':' then
      match bindings.lookup (nameAt rest) with
      | some value => .parameter (nameAt rest) value :: pieces bindings (rest.dropWhile isWordChar)
      | none => .char c :: pieces bindings rest
    else .char c :: pieces bindings rest
termination_by cs => cs.length
decreasing_by
  · have := (List.dropWhile_suffix (p := isWordChar) (l := rest)).length_le
    simp only [List.length_cons]
    omega
  · simp
  · simp

/-- The marks of `count` values behind `placed` others. -/
def marks (style : PlaceholderStyle) (placed count : Nat) : String :=
  ", ".intercalate ((List.range count).map fun i =>
    match style with
    | .dollar => "$" ++ toString (placed + i + 1)
    | .question => "?")

/-- The text of the pieces and their values. `placed` counts the values in front, `known` holds the
marks of parameters that keep them. -/
def place (style : PlaceholderStyle) (placed : Nat) (known : List (String × String)) :
    List Piece → List String × List Operand
  | [] => ([], [])
  | .char c :: pieces =>
    let (texts, values) := place style placed known pieces
    (c.toString :: texts, values)
  | .parameter name value :: pieces =>
    match known.lookup name with
    | some text =>
      let (texts, values) := place style placed known pieces
      (text :: texts, values)
    | none =>
      let count := value.elements.length
      let text := marks style placed count
      let known := if style = .dollar then (name, text) :: known else known
      let (texts, values) := place style (placed + count) known pieces
      (text :: texts, value.elements ++ values)

end PositionalQuery

/-- The statement of a plan with positional marks. -/
def Plan.toPositional (p : Plan) (style : PlaceholderStyle) : PositionalQuery :=
  let (texts, values) :=
    PositionalQuery.place style 0 [] (PositionalQuery.pieces p.bindings p.toSql.toList)
  { sql := String.join texts, values }

end DocQuery
