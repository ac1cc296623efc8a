import DocQuery.Error
import DocQuery.Key
import DocQuery.Schema.Model

/-!
# Columns

A column path names a column, or a relation, reached from a model over relations. It is written with
points or slashes between its segments; the segment `self` stands for the model it is read at and is
dropped.
-/

namespace DocQuery

/-- A column reached from a model over a path of relations. -/
structure Column (s : Schema) where
  model : Model s
  /-- The relations walked before the column. -/
  path : List String
  /-- The column's name; without one the path leads to a model itself. -/
  name : Option String

/-- One relation on the way to a column. -/
structure Hop (s : Schema) where
  /-- The relations walked so far, this one included. -/
  path : List String
  relation : Relation s

namespace Column

variable {s : Schema}

/-- The segment that stands for the model itself. -/
def selfSegment : String := "self"

/-- The segments of a written path. -/
def segmentsOf (spec : String) : List String :=
  ((spec.toList.splitOnP fun c => c == '.' || c == '/').map String.ofList).filter
    (· != selfSegment)

/-- The column that `spec` names from `model` on. -/
def ofText (model : Model s) (spec : String) : Column s :=
  let segments := segmentsOf spec
  ⟨model, segments.dropLast, segments.getLast?⟩

/-- The path with the column's name at its end. -/
def segments (c : Column s) : List String := c.path ++ c.name.toList

/-- The column written with points. -/
def text (c : Column s) : String :=
  if c.segments.isEmpty then selfSegment else ".".intercalate c.segments

/-- Two columns are the same if they start at the same model and have the same segments. -/
instance : DecidableEq (Column s) := fun c d =>
  if h : c.model = d.model ∧ c.path = d.path ∧ c.name = d.name then
    isTrue (by cases c; cases d; obtain ⟨rfl, rfl, rfl⟩ := h; rfl)
  else isFalse fun e => h (by cases e; exact ⟨rfl, rfl, rfl⟩)

/-- The model reached from `m` over relations. -/
def walk (m : Model s) : List String → Option (Model s)
  | [] => some m
  | name :: path =>
    match m.relation? name with
    | some relation => walk relation.target path
    | none => none

/-- The model at the end of the path; `none` if a relation on the way does not exist. -/
def terminal? (c : Column s) : Option (Model s) := walk c.model c.path

/-- The path leads to a column that its model declares. -/
def isColumn (c : Column s) : Bool :=
  match c.terminal?, c.name with
  | some m, some name => m.hasColumn name
  | _, _ => false

/-- The name at the end read as a relation. -/
def relation? (c : Column s) : Option (Relation s) :=
  match c.terminal?, c.name with
  | some m, some name => m.relation? name
  | _, _ => none

/-- The model reached when the last name is followed as a relation. -/
def relationTarget? (c : Column s) : Option (Model s) :=
  match c.name with
  | some _ => c.relation?.map Relation.target
  | none => c.terminal?

/-- Texts compared with the column are timestamps. -/
def isChronological (c : Column s) : Bool :=
  match c.terminal?, c.name with
  | some m, some name => m.isChronological name
  | _, _ => false

/-- A name of the path, or the name at its end, is one that the model it is looked up in protects.
A relation that does not exist ends the search. -/
def protectedFrom (m : Model s) (name : Option String) : List String → Bool
  | [] => name.any m.isProtected
  | hop :: path =>
    if m.isProtected hop then true
    else
      match m.relation? hop with
      | some relation => protectedFrom relation.target name path
      | none => false

/-- Queries must not reach the column. -/
def isProtected (c : Column s) : Bool := protectedFrom c.model c.name c.path

/-- The relations of a path as far as they exist, behind those of `walked`, and the error if one
does not. -/
def hopsFrom (m : Model s) (walked : List String) : List String → List (Hop s) × Option Error
  | [] => ([], none)
  | name :: path =>
    let sofar := walked ++ [name]
    match m.relation? name with
    | none => ([], some (.unknownRelation .relation m.name (".".intercalate sofar)))
    | some relation =>
      let (hops, error) := hopsFrom relation.target sofar path
      (⟨sofar, relation⟩ :: hops, error)

/-- The relations of the column's path in order, as far as they exist, and the error if one does
not. -/
def hops (c : Column s) : List (Hop s) × Option Error := hopsFrom c.model [] c.path

end Column

end DocQuery
