import DocQuery.Proofs.Build.Run
import DocQuery.Proofs.Condition.Follows
import DocQuery.Proofs.Draft.Joins
import DocQuery.Proofs.Schema.Sound

namespace DocQuery

/-! # Joining the relations of a valid schema

A valid schema has no broken relation: each is resolved, and joining it needs nothing that the
schema leaves out. This holds below every path with steps, whatever the draft has joined so far, so
it does not ask whether the path is one of the owner's tables.

* `exists_runs_joinLink`: a link of a known kind is joined, and prints the keys that the schema
  declares.
* `exists_runs_join`: so is a relation, hop by hop, wherever it is joined.
* `exists_unbroken`: every relation of an acyclic valid schema is resolved and can be joined.
-/

open Build Draft

variable {s : Schema}

/-- The draft has got more joins, each of which is as `p` says. -/
def Draft.Adds (p : Join Statement → Prop) (d e : Draft s) : Prop :=
  ∃ added, e.joins = d.joins ++ added ∧ ∀ join ∈ added, p join

namespace Relation

/-- The kinds of the relation and of all hops inside it are such that can be joined. -/
def Known (r : Relation s) : Prop := ∀ part ∈ r.parts, ∀ kind, part.kind ≠ .unknown kind

/-- The join is one over the relation itself, and its tables and keys are those that the schema has
for the relation. Only the key of a relation to one may be missing there. -/
inductive Prints (r : Relation s) : Join Statement → Prop where
  | oneToMany {tableAlias parentAlias key : String} (kind : r.kind = .hasMany)
      (declared : r.definition.foreignKey = some key) :
      Prints r (.table r.target.table tableAlias ⟨parentAlias, r.owner.primaryKey⟩ key)
  | manyToOne {tableAlias parentAlias key : String} (kind : r.kind = .belongsTo)
      (declared : r.definition.foreignKey = some key ∨
        r.definition.foreignKey = none ∧ key = r.name ++ "_id") :
      Prints r (.table r.target.table tableAlias ⟨parentAlias, key⟩ r.target.primaryKey)
  | joinTable {joinTable joinTableAlias parentAlias key : String} (kind : r.kind = .manyToMany)
      (table_declared : r.definition.joinTable = some joinTable)
      (key_declared : r.definition.foreignKey = some key) :
      Prints r (.table joinTable joinTableAlias ⟨parentAlias, r.owner.primaryKey⟩ key)
  | overTable {tableAlias joinTableAlias key : String} (kind : r.kind = .manyToMany)
      (declared : r.definition.associationForeignKey = some key) :
      Prints r (.table r.target.table tableAlias ⟨joinTableAlias, key⟩ r.target.primaryKey)

/-- The join is one over the relation or over a hop inside it. -/
def PrintsPart (r : Relation s) (join : Join Statement) : Prop := ∃ part ∈ r.parts, part.Prints join

/-- The relation leads to a model of the schema, over the hops that it names if it is a through one,
and joining it always succeeds and prints nothing but what the schema has. -/
structure Unbroken (r : Relation s) : Prop where
  known : s.model? r.target.name = some r.target
  leads : r.kind ≠ .through → r.definition.target = some r.target.name
  hops : r.kind = .through → ∃ through source first second,
    r.definition.through = some through ∧ r.definition.source = some source ∧
      r.hops? = some (first, second) ∧ r.owner.relation? through = some first ∧
      first.kind ≠ .through ∧ first.target.relation? source = some second ∧ second.target = r.target
  joins : r.Known → ∀ (d : Draft s) (parent : TablePath), parent.steps ≠ [] →
    ∃ e, (join r (parent.child (.relation r.name))).Runs d () e ∧
      parent.child (.relation r.name) ∈ e.joined ∧
      d.Adds r.PrintsPart e

/-- The parts of a hop are parts of the through relation. -/
theorem parts_subset_through {name : String} {owner : Model s} {definition : RelationDefinition}
    {first second hop : Relation s} (hhop : hop = first ∨ hop = second) :
    hop.parts ⊆ (Relation.through name owner definition first second).parts := by
  intro part hpart
  rw [parts, List.mem_cons, List.mem_append]
  rcases hhop with rfl | rfl
  · exact .inr (.inl hpart)
  · exact .inr (.inr hpart)

/-- What a hop prints the through relation prints. -/
theorem PrintsPart.of_parts_subset {r hop : Relation s} {join : Join Statement}
    (h : hop.PrintsPart join) (hsub : hop.parts ⊆ r.parts) : r.PrintsPart join := by
  rcases h with ⟨part, hpart, hjoin⟩
  exact ⟨part, hsub hpart, hjoin⟩

end Relation

namespace Draft

variable {d e : Draft s} {parent path : TablePath} {name : String} {owner target : Model s}
  {definition : RelationDefinition} {link : Link}

namespace Adds

variable {f : Draft s} {p q : Join Statement → Prop}

/-- A draft with the same joins adds none. -/
theorem of_eq (h : e.joins = d.joins) : d.Adds p e :=
  ⟨[], h.trans (List.append_nil _).symm, List.forall_mem_nil _⟩

/-- What is added in turn is added. -/
theorem trans (h : d.Adds p e) (h' : e.Adds p f) : d.Adds p f := by
  rcases h with ⟨front, hfront, hp⟩
  rcases h' with ⟨back, hback, hp'⟩
  exact ⟨front ++ back, by rw [hback, hfront, List.append_assoc], List.forall_mem_append.2 ⟨hp, hp'⟩⟩

/-- More may be added. -/
theorem mono (h : d.Adds p e) (hpq : ∀ join, p join → q join) : d.Adds q e := by
  rcases h with ⟨added, hadded, hp⟩
  exact ⟨added, hadded, fun join hjoin => hpq join (hp join hjoin)⟩

/-- A join of the right kind is added. -/
theorem addJoin {join : Join Statement} (h : d.Adds p e) (hjoin : p join) :
    d.Adds p (e.addJoin join) :=
  h.trans ⟨[join], rfl, List.forall_mem_singleton.2 hjoin⟩

/-- Naming a path adds no join. -/
theorem aliasOf (h : d.Adds p e) (path : TablePath) : d.Adds p (e.aliasOf path).2 :=
  h.trans (.of_eq (aliasOf_frame rfl).2)

end Adds

/-- Being joined is being in the list. -/
theorem isJoined_iff : d.isJoined path = true ↔ path ∈ d.joined := decide_eq_true_iff

/-- A step that reads the draft goes on with it. -/
theorem runs_get_bind {α : Type} {next : Draft s → Build s α} {a : α} :
    Build.Runs (get >>= next) d a e ↔ (next d).Runs d a e := by
  simp only [runs_bind, runs_get]
  constructor
  · rintro ⟨_, _, ⟨rfl, rfl⟩, h⟩
    exact h
  · intro h
    exact ⟨d, d, ⟨rfl, rfl⟩, h⟩

/-- Where the path is joined nothing happens, and elsewhere the step runs. -/
theorem runs_unless_joined_iff {step : Build s Unit} :
    Build.Runs (do
      if (← get).isJoined path then return
      step) d () e ↔ if path ∈ d.joined then d = e else step.Runs d () e := by
  simp only [runs_get_bind, isJoined_iff]
  split
  · simp only [runs_pure, true_and]
  · rfl

/-- The link of a known relation with all its keys is joined, and prints what the definition has. -/
theorem exists_runs_joinLink
    (found : owner.relation? name = some (.direct name owner definition link target))
    (keyed : definition.Keyed) (known : ∀ kind, definition.kind ≠ .unknown kind) (a : String)
    (d : Draft s) :
    ∃ e, (joinLink parent path a name owner target link).Runs d () e ∧
      d.Adds (Relation.direct name owner definition link target).Prints e := by
  have hlink := Model.link_of_relation? found
  have hstart : d.Adds (Relation.direct name owner definition link target).Prints d := .of_eq rfl
  unfold RelationDefinition.link? at hlink
  -- One case for each kind of relation. A declared key is what the keyed schema has; only the key
  -- of a `belongs_to` relation may be missing, and is then made from the relation's name.
  split at hlink
  · -- one to many: the foreign key is on the target's table
    rename_i hkind
    cases hlink
    rcases keyed.oneToMany hkind with ⟨key, hkey⟩
    simp only [joinLink, runs_bind, runs_modifyGet, runs_modify]
    refine ⟨_, ⟨_, _, ⟨rfl, rfl⟩, rfl⟩, (hstart.aliasOf path).addJoin ?_⟩
    rw [RelationDefinition.foreignKeyOf, hkey]
    exact .oneToMany hkind hkey
  · -- many to one: the foreign key is on the owner's table
    rename_i hkind
    cases hlink
    simp only [joinLink, runs_bind, runs_modifyGet, runs_modify]
    refine ⟨_, ⟨_, _, ⟨rfl, rfl⟩, rfl⟩, (hstart.aliasOf path).addJoin (.manyToOne hkind ?_)⟩
    unfold RelationDefinition.foreignKeyOf
    cases hkey : definition.foreignKey with
    | none => exact .inr ⟨hkey, by simp only [hkind, Relation.name]⟩
    | some key => exact .inl hkey
  · -- over a table: two joins, the join table first
    rename_i hkind
    cases hlink
    rcases keyed.overTable hkind with ⟨joinTable, key, association, htable, hkey, hassociation⟩
    simp only [joinLink, runs_bind, runs_modifyGet, runs_modify]
    refine ⟨_, ⟨_, _, ⟨rfl, rfl⟩, _, _, ⟨rfl, rfl⟩, (), _, rfl, rfl⟩,
      (((hstart.aliasOf _).aliasOf path).addJoin ?_).addJoin ?_⟩
    · rw [RelationDefinition.foreignKeyOf, htable, hkey]
      exact .joinTable hkind htable hkey
    · rw [hassociation]
      exact .overTable hkind hassociation
  · -- a through relation has no link
    cases hlink
  · -- an unknown kind is excluded
    rename_i kind hkind
    exact absurd hkind (known kind)

/-- A direct relation of a valid schema carries the keys that its kind needs. -/
theorem keyed_of_validate (hvalid : s.validate = .ok ())
    (found : owner.relation? name = some (.direct name owner definition link target)) :
    definition.Keyed := by
  have hdirect := Model.kind_ne_through_of_relation? found
  cases Schema.founded_of_validate hvalid (Model.declared_of_relation? found) with
  | direct kind leads known keyed => exact keyed
  | through kind through_eq source_eq found direct leads known continues => exact absurd kind hdirect

/-- Joining a resolved relation of a valid schema at a path that has a parent succeeds if its kinds
are known, and all that it prints are names of the relation and of its hops. -/
theorem exists_runs_join (hvalid : s.validate = .ok ()) {r : Relation s} (hr : r.Resolved)
    (known : r.Known) (d : Draft s) {parent : TablePath} (hparent : parent.steps ≠ []) :
    ∃ e, (join r (parent.child (.relation r.name))).Runs d () e ∧
      parent.child (.relation r.name) ∈ e.joined ∧
      d.Adds r.PrintsPart e := by
  induction hr generalizing d parent with
  | @direct name owner definition link target found =>
    have hkind := known _ (Relation.mem_parts_self _)
    unfold join
    simp only [runs_unless_joined_iff]
    split
    · rename_i hmem
      exact ⟨d, rfl, hmem, .of_eq rfl⟩
    · rw [Relation.name, TablePath.parent?_child hparent]
      simp only [runs_bind, runs_modifyGet, runs_modify]
      rcases exists_runs_joinLink found (keyed_of_validate hvalid found) hkind (d.aliasOf parent).1
        (d.aliasOf parent).2 with ⟨e, hrun, hadds⟩
      have hstart : d.Adds (Relation.direct name owner definition link target).Prints
        (d.aliasOf parent).2 := Adds.aliasOf (.of_eq rfl) parent
      refine ⟨_, ⟨_, _, ⟨rfl, rfl⟩, (), e, hrun, rfl⟩, List.mem_cons_self, ?_⟩
      refine ((hstart.trans hadds).trans (.of_eq rfl)).mono fun join hjoin => ?_
      exact ⟨_, Relation.mem_parts_self _, hjoin⟩
  | @through name owner definition first second found first_owner second_owner first_resolved
      second_resolved ihFirst ihSecond =>
    let r : Relation s := .through name owner definition first second
    have hfirst : first.parts ⊆ r.parts := Relation.parts_subset_through (.inl rfl)
    have hsecond : second.parts ⊆ r.parts := Relation.parts_subset_through (.inr rfl)
    unfold join
    simp only [runs_unless_joined_iff]
    split
    · rename_i hmem
      exact ⟨d, rfl, hmem, .of_eq rfl⟩
    · rw [Relation.name, TablePath.parent?_child hparent]
      simp only [runs_bind, runs_modifyGet, runs_modify]
      -- the hops are joined one below the other
      rcases ihFirst (fun part hpart => known part (hfirst hpart)) (d.aliasOf parent).2 hparent with
        ⟨d₁, hrun₁, _, hadds₁⟩
      have hbelow : (parent.child (.relation first.name)).steps ≠ [] := by
        simp [TablePath.child]
      rcases ihSecond (fun part hpart => known part (hsecond hpart)) d₁ hbelow with
        ⟨d₂, hrun₂, _, hadds₂⟩
      refine ⟨_, ⟨_, _, ⟨rfl, rfl⟩, (), d₁, hrun₁, (), d₂, hrun₂, _, _, ⟨rfl, rfl⟩, (), _, rfl, rfl⟩,
        List.mem_cons_self, ?_⟩
      have h₀ : d.Adds r.PrintsPart (d.aliasOf parent).2 := Adds.aliasOf (.of_eq rfl) parent
      have h₁ : (d.aliasOf parent).2.Adds r.PrintsPart d₁ :=
        hadds₁.mono fun join hjoin => hjoin.of_parts_subset hfirst
      have h₂ : d₁.Adds r.PrintsPart d₂ :=
        hadds₂.mono fun join hjoin => hjoin.of_parts_subset hsecond
      exact (((h₀.trans h₁).trans h₂).aliasOf _).trans (.of_eq rfl)

end Draft

namespace Schema

/-- In a valid schema without a cycle of through relations no relation that a model declares is
broken. -/
theorem exists_unbroken (hvalid : s.validate = .ok ()) (hacyclic : s.Acyclic) {m : Model s}
    {name : String} {definition : RelationDefinition}
    (hdeclared : m.definition.relations.find? name = some definition) :
    ∃ r, m.relation? name = some r ∧
      (∀ fuel, s.relationCount < fuel → Model.resolve fuel m name = some r) ∧
      r.owner = m ∧ r.name = name ∧ r.definition = definition ∧ r.Unbroken := by
  rcases Model.exists_relation? hvalid hacyclic hdeclared with ⟨r, hr, hfuel⟩
  rcases Model.relation?_resolved hr with ⟨hresolved, rfl, rfl⟩
  have hdefinition : definition = r.definition := by
    rw [Model.declared_of_relation? hr] at hdeclared
    exact (Option.some.inj hdeclared).symm
  refine ⟨r, hr, hfuel, rfl, rfl, hdefinition.symm, model?_name _, ?_, ?_, ?_⟩
  · intro hkind
    cases hresolved with
    | direct found => exact Model.target_of_relation? found
    | through found => exact absurd (Model.hops_of_relation? found).1 hkind
  · intro hkind
    cases hresolved with
    | direct found => exact absurd hkind (Model.kind_ne_through_of_relation? found)
    | @through name owner definition first second found _ _ _ _ =>
      rcases Model.hops_of_relation? found with ⟨_, through, source, hover, honto, hfirst, hsecond⟩
      refine ⟨through, source, first, second, hover, honto, rfl, hfirst, ?_, hsecond, rfl⟩
      -- the check has seen that the first hop is a direct one
      cases founded_of_validate hvalid (Model.declared_of_relation? found) with
      | direct kind leads known keyed => exact absurd hkind kind
      | through kind through_eq source_eq found direct leads known continues =>
        cases Option.some.inj (hover.symm.trans through_eq)
        rw [Model.declared_of_relation? hfirst] at found
        cases Option.some.inj found
        exact direct
  · intro hknown d parent hparent
    exact exists_runs_join hvalid hresolved hknown d hparent

/-- People who read what their friends write, and hear of what these read. -/
def readers : Schema :=
  ⟨.ofList
    [("Person",
      { table := "people"
        relations := .ofList
          [("articles", .oneToMany "Article" "person_id"),
            ("friends", .overTable "Person" "friendships" "person_id" "friend_id"),
            ("readings", .twoHops "friends" "articles"),
            ("tips", .twoHops "friends" "readings")] }),
    ("Article",
      { table := "articles"
        relations := .ofList [("person", { kind := .belongsTo, target := some "Person" })] })]⟩

/-- A through relation over a through relation is unbroken, and is joined. -/
theorem exists_unbroken_tips :
    ∃ m r, readers.model? "Person" = some m ∧ m.relation? "tips" = some r ∧ r.Unbroken ∧
      ∃ e, (join r ((TablePath.root "people").child (.relation "tips"))).Runs (.new m {}) () e := by
  have hchecked : readers.validate.toOption.map id = some () := by decide +kernel
  rcases exists_of_map_toOption hchecked with ⟨_, hvalid, _⟩
  -- each through relation has a higher number than those it goes through
  have hacyclic : readers.Acyclic :=
    acyclic_of_numbered (fun name => if name = "tips" then 2 else if name = "readings" then 1 else 0)
      (by decide +kernel)
  have hparts : ((readers.model? "Person").bind fun m => (m.relation? "tips").map fun r =>
      (m.definition.relations.find? "tips", r.parts.map Relation.kind)) =
        some (some (.twoHops "friends" "readings"),
          [.through, .manyToMany, .through, .manyToMany, .hasMany]) := by
    decide +kernel
  rcases Option.bind_eq_some_iff.1 hparts with ⟨m, hm, hparts⟩
  rcases Option.map_eq_some_iff.1 hparts with ⟨found, hfound, hparts⟩
  rcases Prod.mk.inj hparts with ⟨hdeclared, hkinds⟩
  rcases exists_unbroken hvalid hacyclic hdeclared with ⟨r, hr, _, _, hname, _, hunbroken⟩
  rw [Option.some.inj (hfound.symm.trans hr)] at hkinds
  have hknown : r.Known := by
    intro part hpart kind hkind
    have hmem : part.kind ∈ r.parts.map Relation.kind := List.mem_map_of_mem hpart
    rw [hkinds, hkind] at hmem
    simp at hmem
  rcases hunbroken.joins hknown (.new m {}) (.root "people") (by decide) with ⟨e, hrun, _⟩
  exact ⟨m, r, hm, hr, hunbroken, e, hname ▸ hrun⟩

end Schema

end DocQuery
