import DocQuery.Proofs.Build.Join
import DocQuery.Proofs.Document.Access
import DocQuery.Proofs.Draft.Embed
import DocQuery.Proofs.Rows.Database
import Mathlib.Data.Set.Insert

namespace DocQuery

/-! # Correlation

Joining a relation and correlating a sub-query over its target are two ways to the same rows: those
that the keys of the relation tie to a row of the owner. For both it is shown which rows they are,
from the clauses that they add.

* `join_correlate_same_rows`: joining and correlating choose the same rows, in every database.
-/

open Build

variable {s : Schema}

/-! ## Rows that a relation ties together -/

section Ties

variable {ν : Type} [DecidableEq ν]

/-- The link ties the target's row to the owner's row: the keys are equal, directly or over a row of
the join table. -/
def Link.Ties (db : Database ν) (owner target : Model s) (row t : Row ν) : Link → Prop
  | .hasMany foreignKey => equalValues (row owner.primaryKey) (t foreignKey) = true
  | .belongsTo foreignKey => equalValues (row foreignKey) (t target.primaryKey) = true
  | .manyToMany joinTable foreignKey associationKey => ∃ link ∈ db.rows joinTable,
      equalValues (row owner.primaryKey) (link foreignKey) = true ∧
        equalValues (link associationKey) (t target.primaryKey) = true
  | .unknown _ => False

/-- The relation ties the target's row to the owner's row, by the keys that its kind has. -/
def Relation.Ties (db : Database ν) (r : Relation s) (row t : Row ν) : Prop :=
  match r.kind with
  | .hasMany => equalValues (row r.owner.primaryKey) (t r.foreignKey) = true
  | .belongsTo => equalValues (row r.foreignKey) (t r.target.primaryKey) = true
  | .manyToMany => ∃ link ∈ db.rows (r.definition.joinTable.getD ""),
      equalValues (row r.owner.primaryKey) (link r.foreignKey) = true ∧
        equalValues (link (r.definition.associationForeignKey.getD "")) (t r.target.primaryKey) = true
  | _ => False

variable {db : Database ν} {row t : Row ν} {owner target : Model s}

theorem Link.ties_iff_of_keys? {link : Link} {leftKey key : String}
    (h : link.keys? owner target = some (leftKey, key)) :
    link.Ties db owner target row t ↔ equalValues (row leftKey) (t key) = true := by
  cases link with
  | hasMany | belongsTo =>
    cases h
    rfl
  | manyToMany | unknown => cases h

/-- A resolved relation ties by its link. -/
theorem Relation.ties_iff_link {name : String} {definition : RelationDefinition} {link : Link}
    (h : definition.link? name owner.table = some link) :
    (Relation.direct name owner definition link target).Ties db row t ↔
      link.Ties db owner target row t := by
  unfold Relation.Ties Relation.kind
  unfold RelationDefinition.link? at h
  simp only [Relation.definition]
  cases hkind : definition.kind <;> rw [hkind] at h <;> cases h <;> rfl

end Ties

/-- Only the kind that goes over two hops has them. -/
theorem Relation.kind_of_through {m owner : Model s} {name name' : String}
    {definition : RelationDefinition} {first second : Relation s}
    (h : m.relation? name = some (.through name' owner definition first second)) :
    definition.kind = .through := by
  unfold Model.relation? Model.resolve at h
  split at h
  · cases h
  · split at h
    · simp only [bind, Option.bind_eq_some_iff, Option.some.injEq] at h
      rcases h with ⟨_, _, _, _, heq⟩
      cases heq
    · rename_i hlink
      simp only [bind, Option.bind_eq_some_iff, Option.some.injEq] at h
      rcases h with ⟨_, _, _, _, _, _, _, _, heq⟩
      cases heq
      unfold RelationDefinition.link? at hlink
      cases hkind : definition.kind <;> rw [hkind] at hlink <;> cases hlink

/-- Only an unknown kind has an unknown link. -/
theorem Link.kind_of_unknown {definition : RelationDefinition} {name table kind : String}
    (h : definition.link? name table = some (.unknown kind)) : definition.kind = .unknown kind := by
  unfold RelationDefinition.link? at h
  cases hkind : definition.kind <;> rw [hkind] at h <;> cases h
  rfl

namespace Draft

variable {d e : Draft s} {parent : TablePath} {name a leftKey key : String} {owner target : Model s}
  {definition : RelationDefinition} {link : Link}

/-! ## Clauses of a join -/

/-- A direct relation that is not joined yet is joined by its link. -/
theorem Below.runs_join (below : d.Below parent name owner a) (hd : d.Tidy)
    (hlink : (joinLink parent (parent.child (.relation name)) a name owner target link).Runs d () e) :
    (join (.direct name owner definition link target) (parent.child (.relation name))).Runs d ()
      (e.markJoined (parent.child (.relation name)) target) := by
  unfold join
  simp only [runs_bind, runs_get]
  refine ⟨d, d, ⟨rfl, rfl⟩, ?_⟩
  rw [if_neg (by simpa [isJoined] using below.unjoined), hd.parent?_child below.joined]
  simp only [runs_bind, runs_modifyGet, runs_modify, aliasOf_of_some below.named]
  exact ⟨a, d, ⟨rfl, rfl⟩, (), e, hlink, rfl⟩

/-- An alias in use is not given once more. -/
theorem ne_newAlias (h : a ∈ d.usedAliases) (path : TablePath) : a ≠ d.newAlias path :=
  ne_of_mem_of_not_mem h (newAlias_notMem d path)

/-- Joining the relation leaves `joined`, where the relation's path has the alias `b`. The clauses
that it adds relate a row of the owner, under the alias `a`, to the rows of the target that are tied
to it. -/
structure JoinRelates (r : Relation s) (parent : TablePath) (a : String) (d joined : Draft s)
    (clauses : List (Join Statement)) (b : String) : Prop where
  runs : (join r (parent.child (.relation r.name))).Runs d () joined
  joins : joined.joins = d.joins ++ clauses
  named : joined.aliasAt? (parent.child (.relation r.name)) = some b
  relates : ∀ {ν : Type} [DecidableEq ν] (db : Database ν) (rows : Assignment ν) (row t : Row ν),
    rows a = some row → (db.Relates clauses rows b t ↔ t ∈ db.rows r.target.table ∧ r.Ties db row t)

/-- A relation that can be joined below a table is joined with clauses that relate the rows it ties. -/
theorem Below.joinRelates (below : d.Below parent name owner a) (hd : d.Tidy)
    (used : a ∈ d.usedAliases) (hlink : definition.link? name owner.table = some link)
    (known : ∀ kind, link ≠ .unknown kind) : ∃ joined clauses b,
      JoinRelates (.direct name owner definition link target) parent a d joined clauses b := by
  have hsingle : ∀ {leftKey key}, link.keys? owner target = some (leftKey, key) → ∃ joined clauses b,
      JoinRelates (.direct name owner definition link target) parent a d joined clauses b := by
    intro leftKey key keys
    refine ⟨_, _, d.newAlias (parent.child (.relation name)),
      below.runs_join hd (below.runs_joinLink_single keys), rfl, ?_, ?_⟩
    · rw [Relation.name, aliasAt?_markJoined, aliasAt?_introduce, if_pos rfl]
    · intro ν _ db rows row t hrow
      rw [Database.relates_single_iff hrow (ne_newAlias used _), Relation.ties_iff_link hlink,
        Link.ties_iff_of_keys? keys]
      rfl
  cases link with
  | hasMany => exact hsingle rfl
  | belongsTo => exact hsingle rfl
  | manyToMany joinTable foreignKey associationKey =>
    refine ⟨_, _, (d.introduce (parent.child (.joinTable name)) joinTable ⟨a, owner.primaryKey⟩
        foreignKey).newAlias (parent.child (.relation name)),
      below.runs_join hd (below.runs_joinLink_double hd _ _ _),
      List.append_assoc d.joins [_] [_], ?_, ?_⟩
    · rw [Relation.name, aliasAt?_markJoined, aliasAt?_introduce, if_pos rfl]
    · intro ν _ db rows row t hrow
      rw [Relation.ties_iff_link hlink]
      -- the target's alias is given once that of the join table is in use
      exact Database.relates_double_iff hrow (ne_newAlias used _)
        (ne_newAlias List.mem_cons_self (parent.child (.relation name)))
  | unknown kind => exact absurd rfl (known kind)

/-! ## Clauses of a correlation -/

/-- Correlating the draft of a sub-query leaves `done`. Where the alias `a` stands for a row of the
owner, the statement then selects the rows of the target that are tied to it, whatever other tests
mean. -/
structure CorrelateSelects (r : Relation s) (a : String) (d done : Draft s) : Prop where
  runs : (correlate r a).Runs d () done
  selects : ∀ {ν : Type} [DecidableEq ν] (db : Database ν) (other : Test → Bool) (rows : Assignment ν)
    (row t : Row ν), rows a = some row →
      (db.Selects other rows done.finish t ↔ t ∈ db.rows r.target.table ∧ r.Ties db row t)

/-- A new draft has joined no relation. -/
theorem unjoined_withBase {model : Model s} {config : Config} {base : String} {names : List String}
    {lastParam : Nat} : parent.child (.relation name) ∉
      (withBase model config base names lastParam).joined := by
  intro hmem
  -- the base alone is joined, and it is no relation
  have hroot : parent.child (.relation name) = TablePath.child ⟨[]⟩ (.base model.table) :=
    List.mem_singleton.1 hmem
  cases (TablePath.child_inj.1 hroot).2

/-- A sub-query over the target that has just been opened is correlated so that it selects the rows
that the relation ties, if the owner's alias is in use and not that of its base. -/
theorem correlateSelects {config : Config} {base : String} {names : List String} {lastParam : Nat}
    (hne : a ≠ base) (used : a ∈ names) (hlink : definition.link? name owner.table = some link)
    (known : ∀ kind, link ≠ .unknown kind) :
    ∃ done, CorrelateSelects (.direct name owner definition link target) a
      (withBase target config base names lastParam) done := by
  have hsingle : ∀ {leftKey key}, link.keys? owner target = some (leftKey, key) → ∃ done,
      CorrelateSelects (.direct name owner definition link target) a
        (withBase target config base names lastParam) done := by
    intro leftKey key keys
    have named : (withBase target config base names lastParam).aliasAt?
        (withBase target config base names lastParam).base =
          some (withBase target config base names lastParam).baseAlias := by
      simp [aliasAt?, withBase]
    refine ⟨_, runs_correlate_single named keys, ?_⟩
    intro ν _ db other rows row t hrow
    rw [Database.selects_single_iff rfl rfl hrow hne, Relation.ties_iff_link hlink,
      Link.ties_iff_of_keys? keys]
    rfl
  cases link with
  | hasMany => exact hsingle rfl
  | belongsTo => exact hsingle rfl
  | manyToMany joinTable foreignKey associationKey =>
    have unnamed : (withBase target config base names lastParam).aliasAt?
        ((withBase target config base names lastParam).base.child (.joinTable name)) = none := by
      have htidy := tidy_withBase target config base names lastParam
      exact htidy.joinTable_unnamed htidy.base_joined fun hlinked => unjoined_withBase hlinked.2.1
    refine ⟨_, runs_correlate_double (aliasOf_of_none unnamed), ?_⟩
    intro ν _ db other rows row t hrow
    rw [Relation.ties_iff_link hlink]
    -- the join table's alias is given once those of the owner and the base are in use
    exact Database.selects_double_iff rfl rfl hrow hne
      (ne_newAlias (List.mem_cons_of_mem _ used) _) (ne_newAlias List.mem_cons_self _)
  | unknown kind => exact absurd rfl (known kind)

/-! ## Both ways -/

variable {r : Relation s} {place : TablePath}

/-- Joining a relation and correlating a sub-query over its target lead from each row of the owner
to the same rows of the target: those that the keys of the relation tie to it. The owner's table may
be any joined table, known by any alias in use. -/
theorem join_correlate_same_rows (found : r.owner.relation? r.name = some r)
    (kind : r.kind = .hasMany ∨ r.kind = .belongsTo ∨ r.kind = .manyToMany) (hd : d.Tidy)
    (below : d.Below parent r.name r.owner a) (used : a ∈ d.usedAliases)
    (free : d.Place parent place) :
    ∃ joined clauses b done,
      (join r (parent.child (.relation r.name))).Runs d () joined ∧
      joined.joins = d.joins ++ clauses ∧
      joined.aliasAt? (parent.child (.relation r.name)) = some b ∧
      (correlate r a).Runs (d.openNested r.target place).1 () done ∧
      ∀ {ν : Type} [DecidableEq ν] (db : Database ν) (other : Test → Bool) (rows : Assignment ν)
        (row : Row ν), rows a = some row →
          {t | db.Relates clauses rows b t} = {t | db.Selects other rows done.finish t} ∧
          {t | db.Relates clauses rows b t} = {t | t ∈ db.rows r.target.table ∧ r.Ties db row t} := by
  cases r with
  | through name owner definition first second =>
    have hthrough : definition.kind = .through := Relation.kind_of_through found
    rcases kind with hkind | hkind | hkind <;> cases hkind.symm.trans hthrough
  | direct name owner definition link target =>
    have hlink : definition.link? name owner.table = some link := Model.link_of_relation? found
    have known : ∀ kind, link ≠ .unknown kind := by
      rintro unknown rfl
      have hunknown := Link.kind_of_unknown hlink
      rcases kind with hkind | hkind | hkind <;> cases hkind.symm.trans hunknown
    have hjoins : ∃ joined clauses b,
        JoinRelates (.direct name owner definition link target) parent a d joined clauses b :=
      below.joinRelates hd used hlink known
    -- the sub-query opens with an alias of its own, and knows those in use outside
    have hcorrelates : ∃ done, CorrelateSelects (.direct name owner definition link target) a
        (d.nestedDraft place target) done :=
      correlateSelects (ne_newAlias used _) (List.mem_cons_of_mem _ used) hlink known
    rcases hjoins with ⟨joined, clauses, b, hjoin⟩
    rcases hcorrelates with ⟨done, hcorrelate⟩
    have hopen : (d.openNested target place).1 = d.nestedDraft place target := by
      rw [hd.openNested_eq free]
    refine ⟨joined, clauses, b, done, hjoin.runs, hjoin.joins, hjoin.named, ?_, ?_⟩
    · show (correlate _ a).Runs (d.openNested target place).1 () done
      rw [hopen]
      exact hcorrelate.runs
    · intro ν _ db other rows row hrow
      refine ⟨Set.ext fun t => ?_, Set.ext fun t => hjoin.relates db rows row t hrow⟩
      exact (hjoin.relates db rows row t hrow).trans
        (hcorrelate.selects db other rows row t hrow).symm

end Draft

/-! ## A small database -/

namespace Database

/-- A person without a name. -/
def personRow (id : Nat) : Row Nat := fun column => if column = "id" then some id else none

/-- A friendship of `person`, if that is known, with `friend`. -/
def friendshipRow (person : Option Nat) (friend : Nat) : Row Nat := fun column =>
  if column = "person_id" then person else if column = "friend_id" then some friend else none

/-- Three people. The first has the second as a friend; whose friend the third is, is not known. -/
def acquaintances : Database Nat :=
  ⟨fun table =>
    if table = "people" then [personRow 1, personRow 2, personRow 3]
    else if table = "friendships" then [friendshipRow (some 1) 2, friendshipRow none 3]
    else []⟩

/-- One friendship leads from the first person, and it leads to the second. -/
theorem friend_of_first_iff (t : Row Nat) : (t ∈ acquaintances.rows "people" ∧
    ∃ link ∈ acquaintances.rows "friendships",
      equalValues (personRow 1 "id") (link "person_id") = true ∧
        equalValues (link "friend_id") (t "id") = true) ↔ t = personRow 2 := by
  have hpeople : acquaintances.rows "people" = [personRow 1, personRow 2, personRow 3] := rfl
  have hfriendships : acquaintances.rows "friendships" =
      [friendshipRow (some 1) 2, friendshipRow none 3] := rfl
  simp only [hpeople, hfriendships, List.mem_cons, List.not_mem_nil, or_false, exists_eq_or_imp,
    exists_eq_left]
  -- the first person's one friend, since the other friendship has no person
  constructor
  · rintro ⟨rfl | rfl | rfl, hlink⟩
    · exact absurd hlink (by decide)
    · rfl
    · exact absurd hlink (by decide)
  · rintro rfl
    exact ⟨.inr (.inl rfl), .inl (by decide)⟩

end Database

namespace Draft

open Database

/-- A base table can be joined with any relation of its model, whatever its alias. -/
theorem below_withBase (model : Model s) (config : Config) (base : String) (names : List String)
    (lastParam : Nat) (name : String) :
    (withBase model config base names lastParam).Below (.root model.table) name model base := by
  have htidy := tidy_withBase model config base names lastParam
  exact ⟨List.mem_singleton_self _, by simp [aliasAt?, withBase], by simp [modelAt?, withBase],
    unjoined_withBase, htidy.relation_unnamed unjoined_withBase⟩

/-- The friends of people are known to the schema. They tie the first person to the second, and to
nobody else. -/
theorem friends_tied : ∃ (person : Model Schema.people) (r : Relation Schema.people),
    Schema.people.model? "Person" = some person ∧ person.relation? "friends" = some r ∧
      person.table = "people" ∧ r.kind = .manyToMany ∧
      {t | t ∈ acquaintances.rows r.target.table ∧ r.Ties acquaintances (personRow 1) t} =
        {personRow 2} := by
  -- what the schema says of friends
  have hobserved : ((Schema.people.model? "Person").bind fun person =>
      (person.relation? "friends").map fun r => (person.table, r.kind, r.owner.primaryKey, r.foreignKey,
        r.definition.joinTable, r.definition.associationForeignKey, r.target.table,
        r.target.primaryKey)) =
      some ("people", .manyToMany, "id", "person_id", some "friendships", some "friend_id", "people",
        "id") := by
    rfl
  rcases Option.bind_eq_some_iff.1 hobserved with ⟨person, hperson, hrelation⟩
  rcases Option.map_eq_some_iff.1 hrelation with ⟨r, hr, hparts⟩
  simp only [Prod.mk.injEq] at hparts
  rcases hparts with ⟨htable, hkind, hownerKey, hforeign, hjoinTable, hassociation, htarget, htargetKey⟩
  refine ⟨person, r, hperson, hr, htable, hkind, ?_⟩
  ext t
  show (t ∈ acquaintances.rows r.target.table ∧ r.Ties acquaintances (personRow 1) t) ↔ t = personRow 2
  simp only [Relation.Ties, hkind, hownerKey, hforeign, hjoinTable, hassociation, htarget, htargetKey,
    Option.getD_some]
  exact friend_of_first_iff t

/-- From the first person both ways lead to the second and to nobody else. -/
theorem friends_same_rows : ∃ (person : Model Schema.people) (r : Relation Schema.people)
    (joined done : Draft Schema.people) (b : String),
      Schema.people.model? "Person" = some person ∧ person.relation? "friends" = some r ∧
      (join r ((TablePath.root "people").child (.relation "friends"))).Runs (.new person {}) () joined ∧
      (correlate r "people").Runs ((Draft.new person {}).openNested r.target
        (derivedPath (.new person {}) (.root "people") "friends")).1 () done ∧
      {t | acquaintances.Relates joined.joins (fun _ => some (personRow 1)) b t} = {personRow 2} ∧
      {t | acquaintances.Selects (fun _ => true) (fun _ => some (personRow 1)) done.finish t} =
        {personRow 2} := by
  rcases friends_tied with ⟨person, r, hperson, hr, htable, hkind, htied⟩
  rcases Model.relation?_resolved hr with ⟨hresolved, howner, hname⟩
  have below : (Draft.new person {}).Below (.root "people") r.name r.owner "people" := by
    rw [howner, ← htable]
    exact below_withBase person {} person.table [] 0 r.name
  have used : "people" ∈ (Draft.new person {}).usedAliases := by
    rw [← htable]
    exact List.mem_cons_self
  rcases join_correlate_same_rows hresolved.found (.inr (.inr hkind)) (tidy_withBase person {} _ _ _)
      below used (place_derivedPath below.joined "friends") with
    ⟨joined, clauses, b, done, hjoin, hjoins, _, hcorrelate, hrows⟩
  have hclauses : joined.joins = clauses := hjoins
  rcases hrows acquaintances (fun _ => true) (fun _ => some (personRow 1)) (personRow 1) rfl with
    ⟨hsame, hties⟩
  refine ⟨person, r, joined, done, b, hperson, hr, hname ▸ hjoin, hcorrelate, ?_, ?_⟩
  · rw [hclauses, hties, htied]
  · rw [← hsame, hties, htied]

end Draft

end DocQuery
