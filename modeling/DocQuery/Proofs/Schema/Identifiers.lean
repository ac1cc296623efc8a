import DocQuery.Proofs.Dictionary.Entries
import DocQuery.Proofs.Schema.Resolve
import DocQuery.Proofs.Statement.Sound

namespace DocQuery

/-! # The identifiers of a schema

A statement takes its names from the schema: tables, columns and keys, and relations for the
aliases. A class of characters that spells all of these spells what models and relations are joined
by.

* `Link.spelled_names`: what a relation is joined by is spelled like the identifiers of the schema.
-/

namespace RelationDefinition

/-- The keys and the join table. -/
def identifiers (r : RelationDefinition) : List String :=
  r.foreignKey.toList ++ r.joinTable.toList ++ r.associationForeignKey.toList

end RelationDefinition

namespace ModelDefinition

/-- The table, its columns, the relations and what these are joined by. -/
def identifiers (m : ModelDefinition) : List String :=
  m.table :: m.primaryKey :: m.columns.map ColumnDefinition.name ++
    m.relations.entries.flatMap fun entry => entry.1 :: entry.2.identifiers

end ModelDefinition

/-- All that the schema names a table, a column or a relation by. -/
def Schema.identifiers (s : Schema) : List String :=
  s.models.entries.flatMap fun entry => entry.2.identifiers

variable {s : Schema} {p : Char → Prop}

/-- The names that a link joins by. -/
def Link.names : Link → List String
  | hasMany foreignKey => [foreignKey]
  | belongsTo foreignKey => [foreignKey]
  | manyToMany joinTable foreignKey associationForeignKey =>
    [joinTable, foreignKey, associationForeignKey]
  | unknown _ => []

section

variable (hs : ∀ name ∈ s.identifiers, Spelled p name)
include hs

namespace Model

variable (m : Model s)

theorem spelled_identifiers : ∀ name ∈ m.definition.identifiers, Spelled p name := by
  intro name hname
  exact hs name (List.mem_flatMap.2 ⟨_, Dictionary.mem_of_find? m.found, hname⟩)

theorem spelled_table : Spelled p m.table :=
  m.spelled_identifiers hs _ List.mem_cons_self

theorem spelled_primaryKey : Spelled p m.primaryKey :=
  m.spelled_identifiers hs _ (List.mem_cons_of_mem _ List.mem_cons_self)

theorem spelled_column {column : ColumnDefinition} (h : column ∈ m.definition.columns) :
    Spelled p column.name := by
  refine m.spelled_identifiers hs _ (List.mem_append_left _ ?_)
  exact List.mem_cons_of_mem _ (List.mem_cons_of_mem _ (List.mem_map.2 ⟨column, h, rfl⟩))

variable {m}

theorem spelled_declared {name : String} {definition : RelationDefinition}
    (h : m.definition.relations.find? name = some definition) :
    ∀ identifier ∈ name :: definition.identifiers, Spelled p identifier := by
  intro identifier hidentifier
  refine m.spelled_identifiers hs _ (List.mem_append_right _ ?_)
  exact List.mem_flatMap.2 ⟨_, Dictionary.mem_of_find? h, hidentifier⟩

theorem spelled_of_relation? {name : String} {r : Relation s} (h : m.relation? name = some r) :
    Spelled p name :=
  spelled_declared hs (declared_of_relation? h) _ List.mem_cons_self

end Model

/-- A key that the schema leaves out is named after the relation or the table. -/
theorem RelationDefinition.spelled_foreignKeyOf (hp : ∀ c, c ≠ ':' → c ≠ '"' → p c)
    {definition : RelationDefinition} {m : Model s} {name : String}
    (h : m.definition.relations.find? name = some definition) :
    Spelled p (definition.foreignKeyOf name m.table) := by
  have hid : Spelled p "_id" := .of_bare hp (by decide)
  have hdeclared := Model.spelled_declared hs h
  -- a declared key, or one made of the name of the relation or of the table
  unfold foreignKeyOf
  split
  · rename_i _ key hkey
    refine hdeclared key (List.mem_cons_of_mem _ (List.mem_append_left _ (List.mem_append_left _ ?_)))
    exact Option.mem_toList.2 hkey
  · exact (hdeclared name List.mem_cons_self).append hid
  · exact (m.spelled_table hs).append hid

/-- A link joins by names of the schema. -/
theorem Link.spelled_names (hp : ∀ c, c ≠ ':' → c ≠ '"' → p c) {m : Model s} {name : String}
    {owner target : Model s} {definition : RelationDefinition} {link : Link}
    (h : m.relation? name = some (.direct name owner definition link target)) :
    ∀ n ∈ link.names, Spelled p n := by
  have hfind : m.definition.relations.find? name = some definition := Model.declared_of_relation? h
  have hlink := Model.link_of_relation? h
  have hkey := RelationDefinition.spelled_foreignKeyOf hs hp hfind
  have hempty : Spelled p "" := .of_bare hp (by decide)
  -- a part that is not declared is taken as empty
  have hnamed : ∀ part : Option String, part.toList ⊆ definition.identifiers →
      Spelled p (part.getD "") := by
    intro part hpart
    cases part with
    | none => exact hempty
    | some text =>
      exact Model.spelled_declared hs hfind text
        (List.mem_cons_of_mem _ (hpart List.mem_cons_self))
  unfold RelationDefinition.link? at hlink
  split at hlink
  · cases hlink
    simpa [names] using hkey
  · cases hlink
    simpa [names] using hkey
  · cases hlink
    have htable := hnamed definition.joinTable fun n hn =>
      List.mem_append_left _ (List.mem_append_right _ hn)
    have hassociation := hnamed definition.associationForeignKey fun n hn =>
      List.mem_append_right _ hn
    intro n hn
    simp only [names, List.mem_cons, List.not_mem_nil, or_false] at hn
    rcases hn with rfl | rfl | rfl
    · exact htable
    · exact hkey
    · exact hassociation
  · cases hlink
  · cases hlink
    exact List.forall_mem_nil _

end

end DocQuery
