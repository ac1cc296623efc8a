import DocQuery.Dictionary

/-!
# Schemas

A schema names models. A model is a table with its primary key, its columns, its relations to other
models, and the names that queries must not reach.
-/

namespace DocQuery

/-- A column and its type; the type may be left blank. -/
structure ColumnDefinition where
  name : String
  type : String
deriving DecidableEq, Repr

/-- How two models are related. -/
inductive RelationKind where
  /-- One to many, with the foreign key on the target. -/
  | hasMany
  /-- Many to one, with the foreign key on the owner. -/
  | belongsTo
  /-- Many to many over a join table. -/
  | manyToMany
  /-- Two hops: a relation of the owner, then one of its target. -/
  | through
  /-- A kind that a schema may name but that cannot be joined. -/
  | unknown (name : String)
deriving DecidableEq, Repr

namespace RelationKind

/-- The kind that a schema document names. -/
def ofText (s : String) : RelationKind :=
  if s = "has_many" ∨ s = "one_to_many" then hasMany
  else if s = "belongs_to" ∨ s = "has_one" ∨ s = "many_to_one" then belongsTo
  else if s = "has_and_belongs_to_many" ∨ s = "many_to_many" then manyToMany
  else if s = "has_many_through" ∨ s = "through" then through
  else unknown s

/-- The principal name of the kind. -/
def text : RelationKind → String
  | hasMany => "has_many"
  | belongsTo => "belongs_to"
  | manyToMany => "has_and_belongs_to_many"
  | through => "has_many_through"
  | unknown name => name

end RelationKind

/-- A relation as the schema document declares it. -/
structure RelationDefinition where
  kind : RelationKind
  /-- Name of the target model; a through relation takes it from its second hop. -/
  target : Option String := none
  /-- Column of the target, of the owner, or of the join table that points at the owner, as the kind
  has it. -/
  foreignKey : Option String := none
  joinTable : Option String := none
  /-- Column of the join table that points at the target. -/
  associationForeignKey : Option String := none
  through : Option String := none
  source : Option String := none
deriving DecidableEq, Repr

namespace RelationDefinition

/-- One to many. -/
def oneToMany (target foreignKey : String) : RelationDefinition :=
  { kind := .hasMany, target := some target, foreignKey := some foreignKey }

/-- Many to one. -/
def manyToOne (target foreignKey : String) : RelationDefinition :=
  { kind := .belongsTo, target := some target, foreignKey := some foreignKey }

/-- Many to many. -/
def overTable (target joinTable foreignKey associationForeignKey : String) :
    RelationDefinition :=
  { kind := .manyToMany, target := some target, foreignKey := some foreignKey,
    joinTable := some joinTable, associationForeignKey := some associationForeignKey }

/-- Two hops. -/
def twoHops (through source : String) : RelationDefinition :=
  { kind := .through, through := some through, source := some source }

end RelationDefinition

/-- A model as the schema document declares it. -/
structure ModelDefinition where
  table : String
  primaryKey : String := "id"
  columns : List ColumnDefinition := []
  relations : Dictionary RelationDefinition := ∅
  /-- Names of columns and relations that queries must not reach. -/
  hidden : List String := []

/-- The models under their names. -/
structure Schema where
  models : Dictionary ModelDefinition := ∅

namespace Schema

/-- The schema with one more model. -/
def insert (s : Schema) (name : String) (model : ModelDefinition) : Schema :=
  ⟨s.models.insert name model⟩

/-- How many relations the models declare together. -/
def relationCount (s : Schema) : Nat :=
  s.models.entries.foldl (fun n entry => n + entry.2.relations.entries.length) 0

end Schema

end DocQuery
