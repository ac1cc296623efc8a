import DocQuery.Error
import DocQuery.Schema.Basic

/-!
# Valid schemas

A schema is valid when every relation points at existing models and carries the keys its kind needs.
The first fault in the order of model and relation names is reported.
-/

namespace DocQuery

namespace Schema

/-- A part of a relation's definition, or the fault that it is missing. -/
def require {α : Type} (model relation : String) (part : MissingPart) :
    Option α → Except SchemaFault α
  | some value => .ok value
  | none => .error (.missing model relation part)

/-- Checks a relation of two hops. -/
def checkThrough (s : Schema) (model : String) (definition : ModelDefinition)
    (relation : String) (r : RelationDefinition) : Except SchemaFault Unit := do
  let through ← require model relation .through r.through
  let source ← require model relation .source r.source
  let hop ← require model relation (.throughRelation through) (definition.relations.find? through)
  if hop.kind = .through then
    throw (.nestedThrough model relation)
  let target ← require model relation (.throughTarget through)
    (hop.target.bind s.models.find?)
  let _ ← require model relation (.sourceRelation source) (target.relations.find? source)

/-- Checks a relation that leads directly to its target. -/
def checkDirect (s : Schema) (model relation : String) (r : RelationDefinition) :
    Except SchemaFault Unit := do
  let target ← require model relation .target r.target
  if ¬ s.models.contains target then
    throw (.unknownTarget model relation target)
  match r.kind with
  | .hasMany =>
    let _ ← require model relation .foreignKey r.foreignKey
  | .manyToMany =>
    let _ ← require model relation .joinTable r.joinTable
    let _ ← require model relation .foreignKey r.foreignKey
    let _ ← require model relation .associationForeignKey r.associationForeignKey
  | _ => pure ()

/-- Checks one relation. -/
def checkRelation (s : Schema) (model : String) (definition : ModelDefinition)
    (relation : String × RelationDefinition) : Except SchemaFault Unit :=
  if relation.2.kind = .through then s.checkThrough model definition relation.1 relation.2
  else s.checkDirect model relation.1 relation.2

/-- Checks the relations of one model. -/
def checkModel (s : Schema) (model : String × ModelDefinition) : Except SchemaFault Unit :=
  model.2.relations.entries.forM (s.checkRelation model.1 model.2)

/-- Succeeds for a valid schema and reports the first fault of any other. -/
def validate (s : Schema) : Except Error Unit :=
  (s.models.entries.forM s.checkModel).mapError Error.schema

end Schema

end DocQuery
