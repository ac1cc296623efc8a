import DocQuery.Schema.Basic

/-!
# Models and resolved relations

`Model s` is a model of the schema `s`: a name together with the definition that the schema has
under it. A resolved `Relation s` knows the models at its ends; a through relation also knows its
two hops, so whoever walks over it needs no further look-up.
-/

namespace DocQuery

/-- A model of the schema. -/
structure Model (s : Schema) where
  name : String
  definition : ModelDefinition
  found : s.models.find? name = some definition

namespace Model

variable {s : Schema}

/-- A model is determined by its name. -/
theorem ext {m n : Model s} (h : m.name = n.name) : m = n := by
  obtain ⟨a, d, hd⟩ := m
  obtain ⟨b, e, he⟩ := n
  cases h
  have : d = e := Option.some.inj (hd.symm.trans he)
  cases this
  rfl

instance : DecidableEq (Model s) := fun m n =>
  if h : m.name = n.name then isTrue (ext h) else isFalse fun e => h (congrArg Model.name e)

def table (m : Model s) : String := m.definition.table

def primaryKey (m : Model s) : String := m.definition.primaryKey

/-- The model declares a column of this name. -/
def hasColumn (m : Model s) (name : String) : Bool :=
  m.definition.columns.any (·.name == name)

/-- The column types whose texts are timestamps. -/
def chronologicalTypes : List String := ["timestamp", "timestamptz", "datetime", "date", "time"]

/-- The type is one of those, in upper or lower case letters of ASCII. -/
def isChronologicalType (type : String) : Bool :=
  chronologicalTypes.any fun t => type.toList.map Char.toLower == t.toList

/-- Texts compared with the first column of this name are timestamps. -/
def isChronological (m : Model s) (name : String) : Bool :=
  (m.definition.columns.find? (·.name == name)).any fun c => isChronologicalType c.type

/-- Queries must not reach the column or relation of this name. -/
def isProtected (m : Model s) (name : String) : Bool :=
  m.definition.hidden.contains name

end Model

namespace Schema

/-- The model of this name. -/
def model? (s : Schema) (name : String) : Option (Model s) :=
  match h : s.models.find? name with
  | some definition => some ⟨name, definition, h⟩
  | none => none

end Schema

/-- What joins the tables at the ends of a relation. -/
inductive Link where
  /-- The target's column `foreignKey` holds the owner's primary key. -/
  | hasMany (foreignKey : String)
  /-- The owner's column `foreignKey` holds the target's primary key. -/
  | belongsTo (foreignKey : String)
  /-- Rows of the join table hold both primary keys. -/
  | manyToMany (joinTable foreignKey associationForeignKey : String)
  /-- A kind that cannot be joined. -/
  | unknown (kind : String)
deriving DecidableEq, Repr

namespace RelationDefinition

/-- The foreign key column. Without one in the schema it is named after the relation on the owner's
side, and after the owner's table elsewhere. -/
def foreignKeyOf (r : RelationDefinition) (relation ownerTable : String) : String :=
  match r.foreignKey, r.kind with
  | some key, _ => key
  | none, .belongsTo => relation ++ "_id"
  | none, _ => ownerTable ++ "_id"

/-- The link of a relation that leads directly to its target; a through relation has none. -/
def link? (r : RelationDefinition) (relation ownerTable : String) : Option Link :=
  match r.kind with
  | .hasMany => some (.hasMany (r.foreignKeyOf relation ownerTable))
  | .belongsTo => some (.belongsTo (r.foreignKeyOf relation ownerTable))
  | .manyToMany =>
    some (.manyToMany (r.joinTable.getD "") (r.foreignKeyOf relation ownerTable)
      (r.associationForeignKey.getD ""))
  | .through => none
  | .unknown kind => some (.unknown kind)

end RelationDefinition

/-- A relation of a model, with the models that it joins. -/
inductive Relation (s : Schema) where
  /-- A relation that leads directly to its target. -/
  | direct (name : String) (owner : Model s) (definition : RelationDefinition) (link : Link)
      (target : Model s)
  /-- A relation that goes over a relation of its owner to a relation of that one's target. -/
  | through (name : String) (owner : Model s) (definition : RelationDefinition)
      (first second : Relation s)

namespace Relation

variable {s : Schema}

def name : Relation s → String
  | direct name .. => name
  | through name .. => name

def owner : Relation s → Model s
  | direct _ owner .. => owner
  | through _ owner .. => owner

def definition : Relation s → RelationDefinition
  | direct _ _ definition .. => definition
  | through _ _ definition .. => definition

/-- The model that the relation leads to. -/
def target : Relation s → Model s
  | direct _ _ _ _ target => target
  | through _ _ _ _ second => second.target

def kind (r : Relation s) : RelationKind := r.definition.kind

/-- The two hops of a through relation. -/
def hops? : Relation s → Option (Relation s × Relation s)
  | direct .. => none
  | through _ _ _ first second => some (first, second)

/-- The foreign key column, which a through relation does not use. -/
def foreignKey (r : Relation s) : String := r.definition.foreignKeyOf r.name r.owner.table

end Relation

namespace Model

variable {s : Schema}

/-- Resolves a relation over at most `fuel` declarations inside each other. -/
def resolve : Nat → Model s → String → Option (Relation s)
  | 0, _, _ => none
  | fuel + 1, m, name =>
    match m.definition.relations.find? name with
    | none => none
    | some definition =>
      match definition.link? name m.table with
      | some link => do
        let target ← s.model? (← definition.target)
        some (.direct name m definition link target)
      | none => do
        let first ← resolve fuel m (← definition.through)
        let second ← resolve fuel first.target (← definition.source)
        some (.through name m definition first second)

/-- The relation of this name. A chain of through relations that does not come back to itself is
never longer than the schema has declarations. -/
def relation? (m : Model s) (name : String) : Option (Relation s) :=
  resolve (s.relationCount + 1) m name

end Model

end DocQuery
