import DocQuery.Proofs.Document.Reading
import DocQuery.Proofs.Schema.Identifiers
import DocQuery.Schema.Validate
import Mathlib.Data.List.Perm.Subperm
import Mathlib.Logic.Relation

namespace DocQuery

/-! # Resolution in a valid schema

The check of a schema looks one level deep: at a through relation it looks up the first hop and asks
whether the model behind it has the second, whatever that is. The second hop may be a through
relation again, so resolution follows a chain. Where no chain comes back to itself, its relations
are pairwise different, and the fuel of the resolution, one more than there are relations, is never
used up.

* `founded_of_validate`: a valid schema has the parts that each relation names.
* `Trail.length_le`: a trail that does not come back to itself is no longer than there are
  relations.
* `exists_relation?`: so in an acyclic valid schema each declared relation is resolved.
-/

namespace RelationDefinition

/-- The definition carries the keys that its kind needs. -/
structure Keyed (r : RelationDefinition) : Prop where
  oneToMany : r.kind = .hasMany → ∃ key, r.foreignKey = some key
  overTable : r.kind = .manyToMany → ∃ joinTable foreignKey associationForeignKey,
    r.joinTable = some joinTable ∧ r.foreignKey = some foreignKey ∧
      r.associationForeignKey = some associationForeignKey

/-- Only a through relation has no link. -/
theorem link?_eq_none_iff {r : RelationDefinition} {relation ownerTable : String} :
    r.link? relation ownerTable = none ↔ r.kind = .through := by
  unfold link?
  cases r.kind <;> simp

end RelationDefinition

namespace Schema

variable {s : Schema}

/-- What the check asks of a relation of a model: that a direct one leads to a model and carries its
keys, and that a through one goes over a direct one to some relation of the model behind it. -/
inductive Founded (s : Schema) (definition : ModelDefinition) : RelationDefinition → Prop where
  | direct {r : RelationDefinition} {target : String} (kind : r.kind ≠ .through)
      (leads : r.target = some target) (known : s.models.contains target = true) (keyed : r.Keyed) :
      Founded s definition r
  | through {r hop second : RelationDefinition} {through source target : String}
      {behind : ModelDefinition} (kind : r.kind = .through) (through_eq : r.through = some through)
      (source_eq : r.source = some source) (found : definition.relations.find? through = some hop)
      (direct : hop.kind ≠ .through) (leads : hop.target = some target)
      (known : s.models.find? target = some behind)
      (continues : behind.relations.find? source = some second) : Founded s definition r

/-- From a through relation of a model to its second hop: the relation that it names `source`, of
the model behind its first hop. -/
inductive LeadsOn (s : Schema) : String × String → String × String → Prop where
  | source {model relation through source target : String} {definition : ModelDefinition}
      {r hop : RelationDefinition} (known : s.models.find? model = some definition)
      (declared : definition.relations.find? relation = some r) (kind : r.kind = .through)
      (through_eq : r.through = some through) (source_eq : r.source = some source)
      (found : definition.relations.find? through = some hop) (leads : hop.target = some target) :
      LeadsOn s (model, relation) (target, source)

/-- No chain of through relations comes back to itself. -/
def Acyclic (s : Schema) : Prop := ∀ relation, ¬Relation.TransGen s.LeadsOn relation relation

/-! ## What the check accepts -/

/-- A part is required by having one. -/
theorem require_eq_ok_iff {α : Type} {model relation : String} {part : MissingPart} {given : Option α}
    {value : α} : require model relation part given = .ok value ↔ given = some value := by
  cases given <;> simp [require]

/-- A check of all items succeeds if each check does. -/
theorem forM_eq_ok_iff {α ε : Type} {f : α → Except ε Unit} {xs : List α} :
    xs.forM f = .ok () ↔ ∀ x ∈ xs, f x = .ok () := by
  induction xs with
  | nil => simp [List.forM, pure, Except.pure]
  | cons x xs ih =>
    rw [List.forM, bind_eq_ok_iff, List.forall_mem_cons, ih]
    constructor
    · rintro ⟨_, hx, hxs⟩
      exact ⟨hx, hxs⟩
    · rintro ⟨hx, hxs⟩
      exact ⟨(), hx, hxs⟩

/-- A check that raises a fault in some case only passes outside of that case. -/
theorem faultless_of_eq_ok {ε α β : Type} {faulty : Prop} [Decidable faulty] {fault : ε}
    {after : β → Except ε α} {rest : Except ε α} {a : α}
    (h : (if faulty then throw fault >>= after else rest) = .ok a) : ¬faulty ∧ rest = .ok a := by
  split at h
  · cases h
  · rename_i hfaultless
    exact ⟨hfaultless, h⟩

/-- A direct relation that is checked has its target. -/
theorem founded_of_checkDirect {model relation : String} {definition : ModelDefinition}
    {r : RelationDefinition} (kind : r.kind ≠ .through)
    (h : s.checkDirect model relation r = .ok ()) : s.Founded definition r := by
  unfold checkDirect at h
  simp only [bind_eq_ok_iff, require_eq_ok_iff] at h
  rcases h with ⟨target, htarget, h⟩
  rcases faultless_of_eq_ok h with ⟨hknown, hkeys⟩
  refine .direct kind htarget (of_not_not hknown) ⟨?_, ?_⟩
  · intro hkind
    rw [hkind] at hkeys
    simp only [bind_eq_ok_iff, require_eq_ok_iff] at hkeys
    rcases hkeys with ⟨key, hkey, _⟩
    exact ⟨key, hkey⟩
  · intro hkind
    rw [hkind] at hkeys
    simp only [bind_eq_ok_iff, require_eq_ok_iff] at hkeys
    rcases hkeys with ⟨table, htable, key, hkey, association, hassociation, _⟩
    exact ⟨table, key, association, htable, hkey, hassociation⟩

/-- A through relation that is checked has its first hop and the model behind it. -/
theorem founded_of_checkThrough {model relation : String} {definition : ModelDefinition}
    {r : RelationDefinition} (kind : r.kind = .through)
    (h : s.checkThrough model definition relation r = .ok ()) : s.Founded definition r := by
  unfold checkThrough at h
  simp only [bind_eq_ok_iff, require_eq_ok_iff] at h
  rcases h with ⟨through, hthrough, source, hsource, hop, hfound, h⟩
  rcases faultless_of_eq_ok h with ⟨hdirect, hbehind⟩
  simp only [bind_eq_ok_iff, require_eq_ok_iff, Option.bind_eq_some_iff] at hbehind
  rcases hbehind with ⟨behind, ⟨target, hleads, hknown⟩, second, hcontinues, _⟩
  exact .through kind hthrough hsource hfound hdirect hleads hknown hcontinues

/-- Every relation that a valid schema declares is founded. -/
theorem founded_of_validate (hvalid : s.validate = .ok ()) {m : Model s} {name : String}
    {r : RelationDefinition} (hdeclared : m.definition.relations.find? name = some r) :
    s.Founded m.definition r := by
  unfold validate at hvalid
  rw [mapError_eq_ok_iff, forM_eq_ok_iff] at hvalid
  have hmodel := hvalid _ (Dictionary.mem_of_find? m.found)
  unfold checkModel at hmodel
  rw [forM_eq_ok_iff] at hmodel
  have hrelation := hmodel _ (Dictionary.mem_of_find? hdeclared)
  unfold checkRelation at hrelation
  split at hrelation
  · rename_i hkind
    exact founded_of_checkThrough hkind hrelation
  · rename_i hkind
    exact founded_of_checkDirect hkind hrelation

/-! ## Chains of through relations -/

/-- The relations that the models declare, each with its model. -/
def declared (s : Schema) : List (String × String) :=
  s.models.entries.flatMap fun model => model.2.relations.entries.map fun r => (model.1, r.1)

/-- There are as many declared relations as are counted. -/
theorem length_declared (s : Schema) : s.declared.length = s.relationCount := by
  have hfold : ∀ (entries : List (String × ModelDefinition)) (n : Nat),
      entries.foldl (fun n entry => n + entry.2.relations.entries.length) n =
        n + (entries.flatMap fun model =>
          model.2.relations.entries.map fun r => (model.1, r.1)).length := by
    intro entries
    induction entries with
    | nil => exact fun n => rfl
    | cons entry entries ih =>
      intro n
      rw [List.foldl_cons, ih, List.flatMap_cons, List.length_append, List.length_map, Nat.add_assoc]
  rw [declared, relationCount, hfold, Nat.zero_add]

/-- A relation of a model is declared. -/
theorem mem_declared {m : Model s} {name : String} {r : RelationDefinition}
    (h : m.definition.relations.find? name = some r) : (m.name, name) ∈ s.declared := by
  refine List.mem_flatMap.2 ⟨_, Dictionary.mem_of_find? m.found, ?_⟩
  exact List.mem_map.2 ⟨_, Dictionary.mem_of_find? h, rfl⟩

/-- The relations of a chain that a resolution has come along, when it is at `relation`. -/
structure Trail (s : Schema) (trail : List (String × String)) (relation : String × String) : Prop where
  nodup : trail.Nodup
  declared : trail ⊆ s.declared
  leads : ∀ earlier ∈ trail, Relation.TransGen s.LeadsOn earlier relation

/-- A trail starts empty. -/
theorem Trail.start (s : Schema) (relation : String × String) : s.Trail [] relation :=
  ⟨List.nodup_nil, List.nil_subset _, List.forall_mem_nil _⟩

/-- In an acyclic schema a trail may go on, as it has not come to the same relation before. -/
theorem Trail.step (hacyclic : s.Acyclic) {trail : List (String × String)}
    {relation next : String × String} (h : s.Trail trail relation)
    (hdeclared : relation ∈ s.declared) (hleads : s.LeadsOn relation next) :
    s.Trail (relation :: trail) next := by
  refine ⟨List.nodup_cons.2 ⟨?_, h.nodup⟩, List.cons_subset.2 ⟨hdeclared, h.declared⟩, ?_⟩
  · intro hmem
    exact hacyclic relation (h.leads relation hmem)
  · intro earlier hearlier
    rcases List.mem_cons.1 hearlier with rfl | hearlier
    · exact .single hleads
    · exact (h.leads earlier hearlier).tail hleads

/-- A trail is never longer than the schema has relations. -/
theorem Trail.length_le {trail : List (String × String)} {relation : String × String}
    (h : s.Trail trail relation) : trail.length ≤ s.relationCount := by
  rw [← length_declared]
  exact (List.subperm_of_subset h.nodup h.declared).length_le

/-- A schema is acyclic if its relations can be numbered so that each through relation has a greater
number than its source relation. -/
theorem acyclic_of_numbered (number : String → Nat)
    (h : ∀ model ∈ s.models.entries, ∀ r ∈ model.2.relations.entries, r.2.kind = .through →
      ∀ source ∈ r.2.source, number source < number r.1) : s.Acyclic := by
  have hstep : ∀ x y, s.LeadsOn x y → number y.2 < number x.2 := by
    rintro _ _ ⟨known, declared, kind, _, source_eq, _, _⟩
    exact h _ (Dictionary.mem_of_find? known) _ (Dictionary.mem_of_find? declared) kind _ source_eq
  have hchain : ∀ x y, Relation.TransGen s.LeadsOn x y → number y.2 < number x.2 := by
    intro x y hxy
    induction hxy with
    | single hlast => exact hstep _ _ hlast
    | tail _ hlast ih => exact Nat.lt_trans (hstep _ _ hlast) ih
  intro relation hcycle
  exact Nat.lt_irrefl _ (hchain relation relation hcycle)

/-! ## Resolution -/

/-- A declared model is found by its name. -/
theorem exists_model? {name : String} {definition : ModelDefinition}
    (h : s.models.find? name = some definition) :
    ∃ m : Model s, s.model? name = some m ∧ m.name = name ∧ m.definition = definition := by
  unfold model?
  split
  · rename_i found hfound
    rw [h] at hfound
    cases hfound
    exact ⟨_, rfl, rfl, rfl⟩
  · rename_i hnone
    rw [h] at hnone
    cases hnone

/-- A model is found by its own name. -/
@[simp] theorem model?_name (m : Model s) : s.model? m.name = some m := by
  rcases exists_model? m.found with ⟨n, hn, hname, _⟩
  rw [hn, Model.ext hname]

end Schema

namespace Model

variable {s : Schema} {m : Model s} {name : String} {r : RelationDefinition}

/-- A direct relation to a model of the schema is resolved in one step. -/
theorem exists_resolve_direct (hdeclared : m.definition.relations.find? name = some r)
    (hdirect : r.kind ≠ .through) {target : String} {definition : ModelDefinition}
    (hleads : r.target = some target) (hknown : s.models.find? target = some definition) (fuel : Nat) :
    ∃ relation, resolve (fuel + 1) m name = some relation ∧ relation.target.name = target ∧
      relation.target.definition = definition := by
  rcases Schema.exists_model? hknown with ⟨behind, hbehind, hname, hdefinition⟩
  cases hlink : r.link? name m.table with
  | none => exact absurd (RelationDefinition.link?_eq_none_iff.1 hlink) hdirect
  | some link =>
    refine ⟨.direct name m r link behind, ?_, hname, hdefinition⟩
    simp [resolve, hdeclared, hlink, hleads, hbehind]

/-- In a valid acyclic schema a resolution succeeds that has fuel for all relations that the chain
has not come along. -/
theorem exists_resolve (hvalid : s.validate = .ok ()) (hacyclic : s.Acyclic) {fuel : Nat}
    {trail : List (String × String)} (hdeclared : m.definition.relations.find? name = some r)
    (htrail : s.Trail trail (m.name, name)) (hfuel : s.relationCount < trail.length + fuel) :
    ∃ relation, resolve fuel m name = some relation := by
  induction fuel generalizing m name r trail with
  | zero =>
    have hlength := htrail.length_le
    omega
  | succ fuel ih =>
    cases Schema.founded_of_validate hvalid hdeclared with
    | direct kind leads known keyed =>
      rcases Option.isSome_iff_exists.1 known with ⟨definition, hknown⟩
      rcases exists_resolve_direct hdeclared kind leads hknown fuel with ⟨relation, hrelation, _⟩
      exact ⟨relation, hrelation⟩
    | @through hop second through source target behind kind through_eq source_eq found direct leads known
        continues =>
      have hleads : s.LeadsOn (m.name, name) (target, source) :=
        .source m.found hdeclared kind through_eq source_eq found leads
      have hnext := htrail.step hacyclic (Schema.mem_declared hdeclared) hleads
      have hlength := hnext.length_le
      rw [List.length_cons] at hlength
      -- the trail shows that there is fuel left, which the first hop needs too
      obtain ⟨rest, rfl⟩ : ∃ rest, fuel = rest + 1 := ⟨fuel - 1, by omega⟩
      rcases exists_resolve_direct found direct leads known rest with
        ⟨first, hfirst, hname, hdefinition⟩
      rw [← hname] at hnext
      rw [← hdefinition] at continues
      rcases ih continues hnext (by rw [List.length_cons]; omega) with ⟨relation, hrelation⟩
      have hlink : r.link? name m.table = none := RelationDefinition.link?_eq_none_iff.2 kind
      refine ⟨.through name m r first relation, ?_⟩
      rw [resolve]
      simp only [hdeclared, hlink, through_eq, source_eq, bind, Option.bind_some, hfirst, hrelation]

/-- In a valid acyclic schema every relation that a model declares is resolved, and more fuel than
`relation?` has changes nothing. -/
theorem exists_relation? (hvalid : s.validate = .ok ()) (hacyclic : s.Acyclic)
    (hdeclared : m.definition.relations.find? name = some r) :
    ∃ relation, m.relation? name = some relation ∧
      ∀ fuel, s.relationCount < fuel → resolve fuel m name = some relation := by
  have hfuel : s.relationCount < ([] : List (String × String)).length + (s.relationCount + 1) := by
    rw [List.length_nil]
    omega
  rcases exists_resolve hvalid hacyclic hdeclared (.start s (m.name, name)) hfuel with
    ⟨relation, hrelation⟩
  exact ⟨relation, hrelation, fun fuel hfuel => resolve_mono hfuel hrelation⟩

/-! ## What a resolved relation leads to -/

/-- A relation that is resolved as a direct one is declared as such. -/
theorem kind_ne_through_of_relation? {owner target : Model s} {name' : String}
    {definition : RelationDefinition} {link : Link}
    (h : m.relation? name = some (.direct name' owner definition link target)) :
    definition.kind ≠ .through := by
  intro hkind
  have hlink := link_of_relation? h
  rw [RelationDefinition.link?_eq_none_iff.2 hkind] at hlink
  cases hlink

/-- A direct relation leads to the model that its definition names. -/
theorem target_of_relation? {owner target : Model s} {name' : String}
    {definition : RelationDefinition} {link : Link}
    (h : m.relation? name = some (.direct name' owner definition link target)) :
    definition.target = some target.name := by
  rcases direct_of_relation? h with ⟨_, leads, hleads, hmodel⟩
  rw [hleads, Schema.name_of_model? hmodel]

/-- The hops of a through relation are those that its definition names. -/
theorem hops_of_relation? {owner : Model s} {name' : String} {definition : RelationDefinition}
    {first second : Relation s}
    (h : m.relation? name = some (.through name' owner definition first second)) :
    definition.kind = .through ∧ ∃ through source, definition.through = some through ∧
      definition.source = some source ∧ m.relation? through = some first ∧
      first.target.relation? source = some second := by
  unfold relation? resolve at h
  split at h
  · cases h
  · split at h
    · simp only [bind, Option.bind_eq_some_iff, Option.some.injEq] at h
      rcases h with ⟨_, _, _, _, heq⟩
      cases heq
    · rename_i hlink
      simp only [bind, Option.bind_eq_some_iff, Option.some.injEq] at h
      rcases h with ⟨through, hthrough, _, hfirst, source, hsource, _, hsecond, heq⟩
      cases heq
      exact ⟨RelationDefinition.link?_eq_none_iff.1 hlink, through, source, hthrough, hsource,
        resolve_succ hfirst, resolve_succ hsecond⟩

end Model

end DocQuery
