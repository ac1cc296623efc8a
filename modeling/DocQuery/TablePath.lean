/-!
# Table paths

Within one query every table is known by the way to it: the base table, then relations, join tables
and derived tables.
-/

namespace DocQuery

/-- One step of a table path. -/
inductive PathStep where
  /-- The base table of a query or sub-query. -/
  | base (table : String)
  | relation (name : String)
  /-- The join table of a many-to-many relation. -/
  | joinTable (relation : String)
  /-- A derived table. -/
  | derived (name : String)
deriving DecidableEq, Repr

namespace PathStep

/-- The step in an alias. -/
def aliasPart : PathStep → String
  | base table => "base_" ++ table
  | relation name => name
  | joinTable name => "jt_" ++ name
  | derived name => "sub_" ++ name

/-- The step in a message. -/
def text : PathStep → String
  | base table => table
  | relation name => name
  | joinTable name => "<jt:" ++ name ++ ">"
  | derived name => "<sub:" ++ name ++ ">"

/-- The relation that the step follows, if it follows one by name. -/
def relationName? : PathStep → Option String
  | relation name => some name
  | derived name => some name
  | _ => none

end PathStep

/-- The way to a table. -/
structure TablePath where
  steps : List PathStep
deriving DecidableEq, Repr, Inhabited

namespace TablePath

/-- The way to a base table. -/
def root (table : String) : TablePath := ⟨[.base table]⟩

/-- The path ends at the base table. -/
def isRoot (p : TablePath) : Bool := p.steps.length = 1

/-- The path without its last step; the base table has no parent. -/
def parent? (p : TablePath) : Option TablePath :=
  if p.steps.length ≤ 1 then none else some ⟨p.steps.dropLast⟩

/-- The path with one more step. -/
def child (p : TablePath) (step : PathStep) : TablePath := ⟨p.steps ++ [step]⟩

/-- The path extended over relations. -/
def join (p : TablePath) (relations : List String) : TablePath :=
  ⟨p.steps ++ relations.map PathStep.relation⟩

/-- The relations followed after the base table. -/
def relationNames (p : TablePath) : List String := (p.steps.drop 1).filterMap PathStep.relationName?

theorem child_inj {p q : TablePath} {a b : PathStep} : p.child a = q.child b ↔ p = q ∧ a = b := by
  obtain ⟨steps⟩ := p
  obtain ⟨steps'⟩ := q
  simp only [child, mk.injEq]
  constructor
  · intro h
    have hlength : steps.length = steps'.length := by
      simpa using congrArg List.length h
    obtain ⟨hsteps, hlast⟩ := List.append_inj h hlength
    exact ⟨hsteps, by simpa using hlast⟩
  · rintro ⟨rfl, rfl⟩
    rfl

/-- A child of a path with steps knows its parent. -/
theorem parent?_child {p : TablePath} (h : p.steps ≠ []) (step : PathStep) :
    (p.child step).parent? = some p := by
  have hlong : ¬(p.child step).steps.length ≤ 1 := by
    have hpos := List.length_pos_iff.2 h
    simp only [child, List.length_append, List.length_singleton]
    omega
  rw [parent?, if_neg hlong]
  simp [child]

/-- The path in a message. -/
def text (p : TablePath) : String := ".".intercalate (p.steps.map PathStep.text)

end TablePath

end DocQuery
