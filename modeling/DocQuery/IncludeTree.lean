import DocQuery.Dictionary
import DocQuery.Json.Basic

/-!
# Include trees

The relations whose rows are loaded along with the result, as a tree of relation names. The names at
a node stand in order.
-/

namespace DocQuery

/-- A tree of relation names. -/
inductive IncludeTree where
  | node (children : List (String × IncludeTree))
deriving Repr

namespace IncludeTree

/-- The tree without names. -/
def empty : IncludeTree := node []

instance : Inhabited IncludeTree := ⟨empty⟩

def children : IncludeTree → List (String × IncludeTree)
  | node children => children

def isEmpty (t : IncludeTree) : Bool := t.children.isEmpty

/-- The names right below the root. -/
def names (t : IncludeTree) : List String := t.children.map (·.1)

/-- The tree below a name. -/
def get? (t : IncludeTree) (name : String) : Option IncludeTree := valueAt? name t.children

/-- Adds a path of names, keeping what is there. -/
def insert (t : IncludeTree) : List String → IncludeTree
  | [] => t
  | name :: path =>
    node (insertEntry name (((t.get? name).getD empty).insert path) t.children)

/-- The tree at the end of a path. -/
def find? (t : IncludeTree) : List String → Option IncludeTree
  | [] => some t
  | name :: path => (t.get? name).bind fun child => child.find? path

/-- The tree of several paths. -/
def ofPaths (paths : List (List String)) : IncludeTree := paths.foldl insert empty

mutual

/-- The dotted paths to the leaves. -/
def paths : IncludeTree → List String
  | node children => childPaths children

def childPaths : List (String × IncludeTree) → List String
  | [] => []
  | (name, child) :: rest =>
    (if child.isEmpty then [name] else child.paths.map fun path => name ++ "." ++ path)
      ++ childPaths rest

end

mutual

/-- The tree as nested objects. -/
def toJson : IncludeTree → Json
  | node children => .object (childrenToJson children)

def childrenToJson : List (String × IncludeTree) → List (String × Json)
  | [] => []
  | (name, child) :: rest => (name, child.toJson) :: childrenToJson rest

end

end IncludeTree

end DocQuery
