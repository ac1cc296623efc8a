import DocQuery.Draft.Basic

/-!
# Joins

How a relation becomes joins of tables, and how a sub-query is tied to the rows of its parent.
-/

namespace DocQuery

namespace Draft

variable {s : Schema}

/-- Joins the target of a direct relation, whose owner's table is at `parent`. -/
def joinLink (parent path : TablePath) (parentAlias name : String) (owner target : Model s) :
    Link → Build s Unit
  | .hasMany foreignKey => do
    let tableAlias ← modifyGet (·.aliasOf path)
    modify (·.addJoin (.table target.table tableAlias ⟨parentAlias, owner.primaryKey⟩ foreignKey))
  | .belongsTo foreignKey => do
    let tableAlias ← modifyGet (·.aliasOf path)
    modify (·.addJoin (.table target.table tableAlias ⟨parentAlias, foreignKey⟩ target.primaryKey))
  | .manyToMany joinTable foreignKey associationForeignKey => do
    let joinTableAlias ← modifyGet (·.aliasOf (parent.child (.joinTable name)))
    let tableAlias ← modifyGet (·.aliasOf path)
    modify (·.addJoin (.table joinTable joinTableAlias ⟨parentAlias, owner.primaryKey⟩ foreignKey))
    modify (·.addJoin (.table target.table tableAlias ⟨joinTableAlias, associationForeignKey⟩
      target.primaryKey))
  | .unknown kind => throw (.unknownRelationKind owner.name name kind)

/-- Joins the table at `path`, reached from its parent over a relation, unless that has been done. A
through relation joins its two hops; its own path then stands for the table of the second. -/
def join : Relation s → TablePath → Build s Unit
  | .direct name owner _ link target, path => do
    if (← get).isJoined path then return
    match path.parent? with
    | none => throw (.schema (.baseToItself path.text))
    | some parent =>
      let parentAlias ← modifyGet (·.aliasOf parent)
      joinLink parent path parentAlias name owner target link
      modify (·.markJoined path target)
  | .through _ _ _ first second, path => do
    if (← get).isJoined path then return
    match path.parent? with
    | none => throw (.schema (.baseToItself path.text))
    | some parent =>
      let _ ← modifyGet (·.aliasOf parent)
      let throughPath := parent.child (.relation first.name)
      join first throughPath
      let sourcePath := throughPath.child (.relation second.name)
      join second sourcePath
      let tableAlias ← modifyGet (·.aliasOf sourcePath)
      modify (·.setAlias path tableAlias)
      modify (·.markJoined path second.target)

/-- Joins the relations on the way to a column, below the table at `table`. -/
def joinHops (table : TablePath) : List (Hop s) → Build s Unit
  | [] => return
  | hop :: hops => do
    join hop.relation (table.join hop.path)
    joinHops table hops

/-- Joins the relations on the way to a column and gives the path of the table that has it. -/
def joinColumn (table : TablePath) (column : Column s) : Build s TablePath := do
  let (hops, error) := column.hops
  joinHops table hops
  match error with
  | some e => throw e
  | none => return table.join column.path

/-- The `n`th path of a derived table of a relation. -/
def derivedCandidate (table : TablePath) (relation : String) (n : Nat) : TablePath :=
  table.child (.derived (if n = 1 then relation else relation ++ "_" ++ toString n))

/-- The first free path for a derived table of a relation below `table`. Among one more paths than
have been joined there is always one. -/
def derivedPath (d : Draft s) (table : TablePath) (relation : String) : TablePath :=
  let candidates := (List.range' 1 (d.joined.length + 1)).map (derivedCandidate table relation)
  (candidates.find? fun path => !d.isJoined path).getD (derivedCandidate table relation 1)

/-- Joins a derived table at `path`, unless that has been done. -/
def joinDerived (d : Draft s) (path : TablePath) (model : Model s)
    (derived : String → Join Statement) : Draft s :=
  if d.isJoined path then d
  else
    let (tableAlias, d) := d.aliasOf path
    (d.addJoin (derived tableAlias)).markJoined path model

/-- The test that two columns are equal. -/
def equalColumns (left right : QualifiedColumn) : Predicate Test :=
  .leaf (.template "%s = %s" [left, right] [])

/-- The test that ties a sub-query over the target of a relation to the row of the owner's table
that `parentAlias` stands for. A join table is joined for it. -/
def correlation (relation : Relation s) (parentAlias : String) : Build s (Predicate Test) := do
  let base := (← get).base
  match relation with
  | .direct _ owner _ (.hasMany foreignKey) _ =>
    let column ← modifyGet (·.columnAt base foreignKey)
    return equalColumns column ⟨parentAlias, owner.primaryKey⟩
  | .direct _ _ _ (.belongsTo foreignKey) target =>
    let column ← modifyGet (·.columnAt base target.primaryKey)
    return equalColumns column ⟨parentAlias, foreignKey⟩
  | .direct name owner _ (.manyToMany joinTable foreignKey associationForeignKey) target =>
    let path := base.child (.joinTable name)
    let joinTableAlias ← modifyGet (·.aliasOf path)
    let baseAlias := (← get).baseAlias
    modify (·.addJoin
      (.table joinTable joinTableAlias ⟨baseAlias, target.primaryKey⟩ associationForeignKey))
    modify fun d => { d with joined := path :: d.joined }
    return equalColumns ⟨joinTableAlias, foreignKey⟩ ⟨parentAlias, owner.primaryKey⟩
  | .direct name owner _ (.unknown kind) _ =>
    throw (.unknownRelationKind owner.name name kind)
  | .through name owner _ _ _ =>
    throw (.unknownRelation .directRelation owner.name name)

/-- Restricts a sub-query over the target of a relation to the rows related to the row of the
owner's table that `parentAlias` stands for. -/
def correlate (relation : Relation s) (parentAlias : String) : Build s Unit := do
  let test ← correlation relation parentAlias
  modify (·.pushWhere test)

end Draft

end DocQuery
