/-!
# Templates

A template is a text with places, written `%s`, that are filled from left to right. What is filled
in is never searched for places again.
-/

namespace DocQuery

namespace Template

/-- The pieces between the places, in order; one more than there are places. -/
def pieces : List Char → List (List Char)
  | [] => [[]]
  | '%' :: 's' :: rest => [] :: pieces rest
  | c :: rest =>
    match pieces rest with
    | [] => [[c]]
    | piece :: more => (c :: piece) :: more

/-- The pieces with an argument between each two; a place without an argument stays as it is. -/
def fill : List (List Char) → List (List Char) → List Char
  | [], _ => []
  | [piece], _ => piece
  | piece :: more, [] => piece ++ ['%', 's'] ++ fill more []
  | piece :: more, arg :: args => piece ++ arg ++ fill more args

/-- The template with its places filled by the arguments. -/
def render (template : String) (args : List String) : String :=
  String.ofList (fill (pieces template.toList) (args.map String.toList))

/-- Every text has at least one piece. -/
theorem pieces_ne_nil (cs : List Char) : pieces cs ≠ [] := by
  fun_induction pieces cs <;> simp_all

end Template

end DocQuery
