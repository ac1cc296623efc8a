import DocQuery.Draft.Join
import DocQuery.Proofs.Draft.Fresh
import DocQuery.Proofs.Schema.Resolve
import Mathlib.Logic.Relation

namespace DocQuery

/-! # What joining does to a draft

`JoinStep d e` says all that joining one relation can do: a table comes in under a new alias, a join
table and a table do, or the path of a through relation takes over the alias of its last hop.
`Joins` is any number of such steps. Invariants of joining are proved for one step, in three cases.

* `JoinStep.enters`: each step of joining lets one table enter.
* `Joins.eq_with`: joining changes aliases, tables and joins, and nothing else of a draft.
* `Joins.aliasAt?_eq`: a path that has an alias keeps it.
-/

namespace Draft

variable {s : Schema}

/-! ## Aliases -/

/-- The alias that a path has been given. -/
def aliasAt? (d : Draft s) (path : TablePath) : Option String := d.aliases.lookup path

/-- The alias that a path is given if it has none. -/
def newAlias (d : Draft s) (path : TablePath) : String :=
  freshAlias d.config.maxIdentifierLength d.usedAliases (wantedAlias d.config path)

/-- Gives a path an alias that is not in use. -/
def giveAlias (d : Draft s) (path : TablePath) : Draft s :=
  { d with
    aliases := (path, d.newAlias path) :: d.aliases
    usedAliases := d.newAlias path :: d.usedAliases }

/-- A path that has an alias keeps it. -/
theorem aliasOf_of_some {d : Draft s} {path : TablePath} {a : String}
    (h : d.aliasAt? path = some a) : d.aliasOf path = (a, d) := by
  unfold aliasAt? at h
  simp only [aliasOf, h]

/-- A path without an alias gets a new one. -/
theorem aliasOf_of_none {d : Draft s} {path : TablePath} (h : d.aliasAt? path = none) :
    d.aliasOf path = (d.newAlias path, d.giveAlias path) := by
  unfold aliasAt? at h
  simp only [aliasOf, h, takeAlias, setAlias, newAlias, giveAlias]

/-- Asking for an alias leaves everything alone but the aliases. -/
theorem aliasOf_eq_with {d e : Draft s} {path : TablePath} {a : String}
    (h : d.aliasOf path = (a, e)) :
    e = { d with aliases := e.aliases, usedAliases := e.usedAliases } := by
  cases hpath : d.aliasAt? path with
  | none =>
    rw [aliasOf_of_none hpath] at h
    cases h
    rfl
  | some b =>
    rw [aliasOf_of_some hpath] at h
    cases h
    rfl

/-- Giving an alias touches no clause. -/
theorem aliasOf_frame {d e : Draft s} {path : TablePath} {a : String}
    (h : d.aliasOf path = (a, e)) : e.baseAlias = d.baseAlias ∧ e.joins = d.joins := by
  rw [aliasOf_eq_with h]
  exact ⟨rfl, rfl⟩

/-- A new alias has not been used. -/
theorem newAlias_notMem (d : Draft s) (path : TablePath) : d.newAlias path ∉ d.usedAliases :=
  freshAlias_notMem _ _ _

/-- The first entry of a key counts. -/
theorem lookup_cons_eq {α : Type} (key q : TablePath) (value : α) (entries : List (TablePath × α)) :
    List.lookup q ((key, value) :: entries) = if q = key then some value else entries.lookup q := by
  by_cases h : q = key
  · simp [h]
  · have hkey : (q == key) = false := beq_false_of_ne h
    simp [h, List.lookup_cons, hkey]

/-- Naming a path names no other. -/
theorem aliasAt?_giveAlias (d : Draft s) (path q : TablePath) :
    (d.giveAlias path).aliasAt? q = if q = path then some (d.newAlias path) else d.aliasAt? q :=
  lookup_cons_eq path q (d.newAlias path) d.aliases

/-- Taking over an alias names no other path. -/
theorem aliasAt?_setAlias (d : Draft s) (path q : TablePath) (a : String) :
    (d.setAlias path a).aliasAt? q = if q = path then some a else d.aliasAt? q :=
  lookup_cons_eq path q a d.aliases

@[simp] theorem aliasAt?_markJoined (d : Draft s) (path q : TablePath) (m : Model s) :
    (d.markJoined path m).aliasAt? q = d.aliasAt? q := rfl

/-- Joins a table at a path, under an alias that is not in use. -/
def introduce (d : Draft s) (path : TablePath) (table : String) (left : QualifiedColumn)
    (key : String) : Draft s :=
  (d.giveAlias path).addJoin (.table table (d.newAlias path) left key)

/-- A table that comes in is named, and no other path is. -/
theorem aliasAt?_introduce (d : Draft s) (path q : TablePath) (table : String)
    (left : QualifiedColumn) (key : String) :
    (d.introduce path table left key).aliasAt? q =
      if q = path then some (d.newAlias path) else d.aliasAt? q :=
  aliasAt?_giveAlias d path q

/-! ## Scope -/

/-- The aliases that the statement introduces: that of its base table and those of its joins. -/
def scope (d : Draft s) : List String := d.baseAlias :: d.joins.map Join.tableAlias

@[simp] theorem scope_giveAlias (d : Draft s) (path : TablePath) :
    (d.giveAlias path).scope = d.scope := rfl

@[simp] theorem scope_markJoined (d : Draft s) (path : TablePath) (m : Model s) :
    (d.markJoined path m).scope = d.scope := rfl

/-- A join introduces its alias behind those before it. -/
@[simp] theorem scope_addJoin (d : Draft s) (join : Join Statement) :
    (d.addJoin join).scope = d.scope ++ [join.tableAlias] := by
  simp [scope, addJoin]

/-- A table comes in under its new alias. -/
@[simp] theorem scope_introduce (d : Draft s) (path : TablePath) (table : String)
    (left : QualifiedColumn) (key : String) :
    (d.introduce path table left key).scope = d.scope ++ [d.newAlias path] := by
  simp [introduce, Join.tableAlias]

/-! ## Entering a table -/

/-- `path` becomes a joined table of `model`, and all other joined tables stay as they are. -/
structure Enters (d : Draft s) (path : TablePath) (model : Model s) (e : Draft s) : Prop where
  sameBase : e.base = d.base
  sameModel : e.model = d.model
  unjoined : path ∉ d.joined
  joined : e.joined = path :: d.joined
  models : e.models = (path, model) :: d.models
  named : ∃ a, e.aliasAt? path = some a
  keeps : ∀ q a, d.aliasAt? q = some a → e.aliasAt? q = some a
  scope : ∀ a ∈ d.scope, a ∈ e.scope

/-- A table that enters has its model, and the tables before it keep theirs. -/
theorem Enters.modelAt? {d e : Draft s} {path : TablePath} {model : Model s}
    (h : d.Enters path model e) (q : TablePath) :
    e.modelAt? q = if q = path then some model else d.modelAt? q := by
  unfold Draft.modelAt?
  rw [h.models]
  exact lookup_cons_eq path q model d.models

/-- Only the table that enters is new. -/
theorem Enters.mem_joined {d e : Draft s} {path q : TablePath} {model : Model s}
    (h : d.Enters path model e) : q ∈ e.joined ↔ q = path ∨ q ∈ d.joined := by
  rw [h.joined, List.mem_cons]

/-- A joined table keeps its model. -/
theorem Enters.modelAt?_eq {d e : Draft s} {path q : TablePath} {model : Model s}
    (h : d.Enters path model e) (hq : q ∈ d.joined) : e.modelAt? q = d.modelAt? q := by
  rw [h.modelAt?, if_neg (ne_of_mem_of_not_mem hq h.unjoined)]

/-! ## Joining -/

/-- The relation `name` of `owner` can be joined below `parent`, a joined table of that model with
the alias `a`: its own path is new. -/
structure Below (d : Draft s) (parent : TablePath) (name : String) (owner : Model s) (a : String) :
    Prop where
  joined : parent ∈ d.joined
  named : d.aliasAt? parent = some a
  typed : d.modelAt? parent = some owner
  unjoined : parent.child (.relation name) ∉ d.joined
  unnamed : d.aliasAt? (parent.child (.relation name)) = none

/-- A path with an alias is not one without. -/
theorem ne_of_unnamed {d : Draft s} {path q : TablePath} {a : String}
    (hpath : d.aliasAt? path = some a) (hq : d.aliasAt? q = none) : path ≠ q := by
  rintro rfl
  rw [hpath] at hq
  cases hq

section

variable {d : Draft s} {parent : TablePath} {name a : String} {owner : Model s}

/-- A table enters under a new alias. -/
theorem Below.enters_single (below : d.Below parent name owner a) {target : Model s}
    {table key : String} {left : QualifiedColumn} :
    d.Enters (parent.child (.relation name)) target
      ((d.introduce (parent.child (.relation name)) table left key).markJoined
        (parent.child (.relation name)) target) := by
  refine ⟨rfl, rfl, below.unjoined, rfl, rfl, ?_, ?_, ?_⟩
  · exact ⟨_, by rw [aliasAt?_markJoined, aliasAt?_introduce, if_pos rfl]⟩
  · intro q b hb
    rw [aliasAt?_markJoined, aliasAt?_introduce, if_neg (ne_of_unnamed hb below.unnamed)]
    exact hb
  · intro b hb
    rw [scope_markJoined, scope_introduce]
    exact List.mem_append_left _ hb

/-- A join table and a table come in, and only the table enters: the path of the join table is no
place. -/
theorem Below.enters_double (below : d.Below parent name owner a) {target : Model s}
    {joinTable table key joinKey : String} {left joinLeft : QualifiedColumn}
    (unnamed : d.aliasAt? (parent.child (.joinTable name)) = none) :
    d.Enters (parent.child (.relation name)) target
      (((d.introduce (parent.child (.joinTable name)) joinTable joinLeft joinKey).introduce
        (parent.child (.relation name)) table left key).markJoined
        (parent.child (.relation name)) target) := by
  refine ⟨rfl, rfl, below.unjoined, rfl, rfl, ?_, ?_, ?_⟩
  · exact ⟨_, by rw [aliasAt?_markJoined, aliasAt?_introduce, if_pos rfl]⟩
  · intro q b hb
    rw [aliasAt?_markJoined, aliasAt?_introduce, if_neg (ne_of_unnamed hb below.unnamed),
      aliasAt?_introduce, if_neg (ne_of_unnamed hb unnamed)]
    exact hb
  · intro b hb
    rw [scope_markJoined, scope_introduce, scope_introduce]
    exact List.mem_append_left _ (List.mem_append_left _ hb)

/-- A through relation enters under the alias of its last hop. -/
theorem Below.enters_through (below : d.Below parent name owner a) {target : Model s} {b : String} :
    d.Enters (parent.child (.relation name)) target
      ((d.setAlias (parent.child (.relation name)) b).markJoined
        (parent.child (.relation name)) target) := by
  refine ⟨rfl, rfl, below.unjoined, rfl, rfl, ?_, ?_, ?_⟩
  · exact ⟨_, by rw [aliasAt?_markJoined, aliasAt?_setAlias, if_pos rfl]⟩
  · intro q c hc
    rw [aliasAt?_markJoined, aliasAt?_setAlias, if_neg (ne_of_unnamed hc below.unnamed)]
    exact hc
  · intro c hc
    exact hc

end

/-- What joining one relation makes of a draft. -/
inductive JoinStep : Draft s → Draft s → Prop where
  /-- A table is joined on a pair of keys. -/
  | single {d : Draft s} {parent : TablePath} {a name leftKey key : String} {owner target : Model s}
      {definition : RelationDefinition} {link : Link} (below : d.Below parent name owner a)
      (found : owner.relation? name = some (.direct name owner definition link target))
      (keys : (link = .hasMany key ∧ leftKey = owner.primaryKey) ∨
        (link = .belongsTo leftKey ∧ key = target.primaryKey)) :
      JoinStep d ((d.introduce (parent.child (.relation name)) target.table ⟨a, leftKey⟩
        key).markJoined (parent.child (.relation name)) target)
  /-- A join table is joined, and the table behind it. -/
  | double {d : Draft s} {parent : TablePath} {a name joinTable foreignKey associationKey : String}
      {owner target : Model s} {definition : RelationDefinition}
      (below : d.Below parent name owner a)
      (found : owner.relation? name = some
        (.direct name owner definition (.manyToMany joinTable foreignKey associationKey) target))
      (unnamed : d.aliasAt? (parent.child (.joinTable name)) = none) :
      JoinStep d (((d.introduce (parent.child (.joinTable name)) joinTable ⟨a, owner.primaryKey⟩
          foreignKey).introduce (parent.child (.relation name)) target.table
          ⟨d.newAlias (parent.child (.joinTable name)), associationKey⟩
          target.primaryKey).markJoined (parent.child (.relation name)) target)
  /-- The path of a through relation stands for the table of the last hop. -/
  | through {d : Draft s} {parent : TablePath} {a b name : String} {owner : Model s}
      {definition : RelationDefinition} {first second : Relation s}
      (below : d.Below parent name owner a)
      (found : owner.relation? name = some (.through name owner definition first second))
      (joined : (parent.child (.relation first.name)).child (.relation second.name) ∈ d.joined)
      (named : d.aliasAt?
        ((parent.child (.relation first.name)).child (.relation second.name)) = some b) :
      JoinStep d ((d.setAlias (parent.child (.relation name)) b).markJoined
        (parent.child (.relation name)) second.target)

/-- A step enters the path of a relation of the parent's model. -/
theorem JoinStep.enters {d e : Draft s} (h : JoinStep d e) :
    ∃ parent name owner a r, d.Below parent name owner a ∧ owner.relation? name = some r ∧
      d.Enters (parent.child (.relation name)) r.target e := by
  cases h with
  | single below found keys => exact ⟨_, _, _, _, _, below, found, below.enters_single⟩
  | double below found unnamed => exact ⟨_, _, _, _, _, below, found, below.enters_double unnamed⟩
  | through below found joined named => exact ⟨_, _, _, _, _, below, found, below.enters_through⟩

/-- What joining relations makes of a draft. -/
abbrev Joins : Draft s → Draft s → Prop := Relation.ReflTransGen JoinStep

/-- Joining leaves everything alone but aliases, models, joined paths and joins. -/
theorem Joins.eq_with {d e : Draft s} (h : Joins d e) :
    e = { d with
      aliases := e.aliases, usedAliases := e.usedAliases, models := e.models, joined := e.joined,
      joins := e.joins } := by
  induction h with
  | refl => rfl
  | tail _ step ih =>
    cases step with
    | single below found keys =>
      rw [ih]
      rfl
    | double below found unnamed =>
      rw [ih]
      rfl
    | through below found joined named =>
      rw [ih]
      rfl

/-- A path keeps the alias that it has. -/
theorem Joins.aliasAt?_eq {d e : Draft s} (h : Joins d e) {path : TablePath} {a : String}
    (ha : d.aliasAt? path = some a) : e.aliasAt? path = some a := by
  induction h with
  | refl => exact ha
  | tail _ step ih =>
    rcases step.enters with ⟨_, _, _, _, _, _, _, henters⟩
    exact henters.keeps _ _ ih

/-- What is joined stays joined. -/
theorem Joins.joined_subset {d e : Draft s} (h : Joins d e) {path : TablePath}
    (hpath : path ∈ d.joined) : path ∈ e.joined := by
  induction h with
  | refl => exact hpath
  | tail _ step ih =>
    rcases step.enters with ⟨_, _, _, _, _, _, _, henters⟩
    exact henters.mem_joined.2 (.inr ih)

/-- A joined path keeps its model. -/
theorem Joins.modelAt?_eq {d e : Draft s} (h : Joins d e) {path : TablePath}
    (hpath : path ∈ d.joined) : e.modelAt? path = d.modelAt? path := by
  induction h with
  | refl => rfl
  | tail joins step ih =>
    rcases step.enters with ⟨_, _, _, _, _, _, _, henters⟩
    rw [henters.modelAt?_eq (Joins.joined_subset joins hpath), ih]

/-- Joining relations joins no derived table. -/
theorem Joins.derived_mem_iff {d e : Draft s} (h : Joins d e) {table : TablePath} {name : String} :
    table.child (.derived name) ∈ e.joined ↔ table.child (.derived name) ∈ d.joined := by
  induction h with
  | refl => rfl
  | tail _ step ih =>
    rcases step.enters with ⟨_, _, _, _, _, _, _, henters⟩
    rw [henters.mem_joined, ih]
    simp [TablePath.child_inj]

end Draft

end DocQuery
