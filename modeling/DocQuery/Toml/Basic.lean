import DocQuery.Json.Basic

/-!
# TOML values

The values of a TOML document.
-/

namespace DocQuery

/-- A TOML value. A table keeps its keys in document order, and no key occurs in it twice. -/
inductive Toml where
  | string (s : String)
  | integer (i : Int)
  /-- A number with a fraction or an exponent; `none` if it is infinite or no number. -/
  | float (x : Option Binary64)
  | boolean (b : Bool)
  /-- A date, a time, or both, as written. -/
  | moment (text : String)
  | array (items : List Toml)
  | table (entries : List (String × Toml))
deriving Repr, Inhabited

namespace Toml

/-- The value under a key of a table. -/
def get? : Toml → String → Option Toml
  | table entries, key => Json.lookup? entries key
  | _, _ => none

end Toml

end DocQuery
