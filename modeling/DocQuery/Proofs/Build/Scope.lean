import DocQuery.Proofs.Build.Where
import DocQuery.Proofs.Statement.Scope

namespace DocQuery

/-! # Aliases of built statements

A build takes each new alias from those that are not in use, so aliases stay distinct; with one
exception. A sub-query over a many-to-many relation joins the join table for its correlation under
the alias that the table has if the sub-query has joined it before.

* `JoinStep.contained_distinct`: joining keeps aliases contained and distinct.
* `Correlates.contained_distinct`: tying a sub-query to its parent does, unless its join table is
  reentered.
* `aliases_distinct_iff`: the aliases of a compiled query are distinct exactly if no sub-query
  reenters a join table.
-/

open Build Draft

variable {s : Schema}

namespace Draft

variable {d e : Draft s} {earlier : List String}

/-- All aliases of the statement are recorded as used, and they are none of the earlier ones. -/
structure Contained (earlier : List String) (d : Draft s) : Prop where
  used : ∀ a, d.finish.Introduces a → a ∈ d.usedAliases
  keeps : ∀ a ∈ earlier, a ∈ d.usedAliases
  fresh : ∀ a, d.finish.Introduces a → a ∉ earlier

/-- The aliases and joins are the same. -/
structure SameScope (d e : Draft s) : Prop where
  baseAlias : e.baseAlias = d.baseAlias
  joins : e.joins = d.joins
  usedAliases : e.usedAliases = d.usedAliases

/-- What is contained depends on the scope only. -/
theorem SameScope.contained (h : SameScope d e) (hd : d.Contained earlier) : e.Contained earlier where
  used := by
    intro a ha
    rw [h.usedAliases]
    exact hd.used a ((Statement.introduces_congr h.baseAlias h.joins a).1 ha)
  keeps := by
    rw [h.usedAliases]
    exact hd.keeps
  fresh := by
    intro a ha
    exact hd.fresh a ((Statement.introduces_congr h.baseAlias h.joins a).1 ha)

/-- So does whether aliases are distinct. -/
theorem SameScope.distinct_iff (h : SameScope d e) : e.finish.Distinct ↔ d.finish.Distinct :=
  Statement.distinct_congr h.baseAlias h.joins

/-- Where the tables stay, so does the scope. -/
theorem SameTables.sameScope (h : SameTables d e) : SameScope d e := by
  rw [h]
  exact ⟨rfl, rfl, rfl⟩

/-- A join is added under an alias that was not in use; neither were those inside it. -/
structure Appends (d : Draft s) (join : Join Statement) (e : Draft s) : Prop where
  baseAlias : e.baseAlias = d.baseAlias
  joins : e.joins = d.joins ++ [join]
  keeps : ∀ a ∈ d.usedAliases, a ∈ e.usedAliases
  used : join.tableAlias ∈ e.usedAliases
  fresh : join.tableAlias ∉ d.usedAliases
  inner : ∀ tableAlias inner, join = .derived tableAlias inner → ∀ a, inner.Introduces a →
    a ∈ e.usedAliases ∧ a ∉ d.usedAliases ∧ a ≠ join.tableAlias

/-- A join introduces its alias, and a derived table what is inside it. -/
theorem Appends.introduces {join : Join Statement} (h : d.Appends join e) (a : String) :
    e.finish.Introduces a ↔ d.finish.Introduces a ∨ a = join.tableAlias ∨
      ∃ tableAlias inner, join = .derived tableAlias inner ∧ inner.Introduces a :=
  Statement.introduces_snoc (show e.finish.baseAlias = d.finish.baseAlias from h.baseAlias)
    (show e.finish.joins = d.finish.joins ++ [join] from h.joins) a

/-- Adding a join keeps the aliases contained. -/
theorem Appends.contained {join : Join Statement} (h : d.Appends join e)
    (hd : d.Contained earlier) : e.Contained earlier where
  used := by
    intro a ha
    -- an alias was there, is that of the join or comes from inside a derived table
    rcases (h.introduces a).1 ha with
      hold | rfl | ⟨tableAlias, inner, hjoin, hinner⟩
    · exact h.keeps a (hd.used a hold)
    · exact h.used
    · exact (h.inner tableAlias inner hjoin a hinner).1
  keeps := by
    intro a ha
    exact h.keeps a (hd.keeps a ha)
  fresh := by
    intro a ha hearlier
    rcases (h.introduces a).1 ha with
      hold | rfl | ⟨tableAlias, inner, hjoin, hinner⟩
    · exact hd.fresh a hold hearlier
    · exact h.fresh (hd.keeps _ hearlier)
    · exact (h.inner tableAlias inner hjoin a hinner).2.1 (hd.keeps a hearlier)

/-- Aliases stay distinct exactly if those inside the new join are. -/
theorem Appends.distinct_iff {join : Join Statement} (h : d.Appends join e)
    (hd : d.Contained earlier) :
    e.finish.Distinct ↔ d.finish.Distinct ∧
      ∀ tableAlias inner, join = .derived tableAlias inner → inner.Distinct := by
  rw [Statement.distinct_snoc (show e.finish.baseAlias = d.finish.baseAlias from h.baseAlias)
    (show e.finish.joins = d.finish.joins ++ [join] from h.joins)]
  constructor
  · rintro ⟨hdistinct, _, hinner⟩
    exact ⟨hdistinct, fun tableAlias inner hjoin => (hinner tableAlias inner hjoin).1⟩
  · rintro ⟨hdistinct, hinner⟩
    -- a new alias is in use nowhere, and all introduced ones are in use
    refine ⟨hdistinct, fun hold => h.fresh (hd.used _ hold), fun tableAlias inner hjoin => ?_⟩
    refine ⟨hinner tableAlias inner hjoin, fun a ha => ?_⟩
    rcases h.inner tableAlias inner hjoin a ha with ⟨_, hfresh, hne⟩
    exact ⟨fun hown => hfresh (hd.used a (.here hown)), hne⟩

/-- A table comes in under an alias that nothing has. -/
theorem introduce_appends (d : Draft s) (path : TablePath) (table : String) (left : QualifiedColumn)
    (key : String) :
    d.Appends (.table table (d.newAlias path) left key) (d.introduce path table left key) where
  baseAlias := rfl
  joins := rfl
  keeps := fun _ ha => List.mem_cons_of_mem _ ha
  used := List.mem_cons_self
  fresh := d.newAlias_notMem path
  inner := by
    intro tableAlias inner hjoin
    cases hjoin

/-- So the aliases stay contained. -/
theorem Contained.introduce (hd : d.Contained earlier) {path : TablePath} {table : String}
    {left : QualifiedColumn} {key : String} : (d.introduce path table left key).Contained earlier :=
  (introduce_appends d path table left key).contained hd

/-- Which paths are joined has no part in it. -/
theorem Contained.markJoined (hd : d.Contained earlier) {path : TablePath} {m : Model s} :
    (d.markJoined path m).Contained earlier :=
  ⟨hd.used, hd.keeps, hd.fresh⟩

/-- And they stay distinct. -/
theorem introduce_distinct_iff {path : TablePath} {table : String} {left : QualifiedColumn}
    {key : String} (hd : d.Contained earlier) :
    (d.introduce path table left key).finish.Distinct ↔ d.finish.Distinct := by
  rw [(introduce_appends d path table left key).distinct_iff hd]
  refine and_iff_left ?_
  intro tableAlias inner hjoin
  cases hjoin

/-- Joining keeps the aliases distinct. -/
theorem JoinStep.contained_distinct (h : JoinStep d e) (hd : d.Contained earlier) :
    e.Contained earlier ∧ (e.finish.Distinct ↔ d.finish.Distinct) := by
  cases h with
  | single below found keys => exact ⟨hd.introduce.markJoined, introduce_distinct_iff hd⟩
  | double below found unnamed =>
    exact ⟨hd.introduce.introduce.markJoined,
      (introduce_distinct_iff hd.introduce).trans (introduce_distinct_iff hd)⟩
  | through below found joined named =>
    -- a second alias of a table is not introduced again
    exact ⟨⟨hd.used, hd.keeps, hd.fresh⟩, Iff.rfl⟩

end Draft

/-! ## Sub-queries -/

/-- Somewhere in the sub-query over the relation, a sub-query over a many-to-many relation joins
another such relation of the same name right below its base. -/
inductive Condition.Reenters : Relation s × List (Condition s) → Prop where
  | here {relation : Relation s} {subquery : List (Condition s)}
      (outward : relation.owner.LinksOver relation.name)
      (again : relation.target.LinksOver relation.name)
      (entered : relation.name ∈ enteredByEach subquery) : Reenters (relation, subquery)
  | inside {relation : Relation s} {subquery : List (Condition s)}
      {inner : Relation s × List (Condition s)} (mem : inner ∈ subqueriesOfEach subquery)
      (reenters : Reenters inner) : Reenters (relation, subquery)

namespace Draft

variable {d e : Draft s} {earlier : List String}

/-- A sub-query begins with its base alone. -/
theorem contained_nestedDraft (d : Draft s) (place : TablePath) (model : Model s) :
    (d.nestedDraft place model).Contained d.usedAliases where
  used := by
    intro a ha
    rw [(Statement.introduces_of_joins_nil rfl a).1 ha]
    exact List.mem_cons_self
  keeps := by
    intro a ha
    exact List.mem_cons_of_mem _ (List.mem_cons_of_mem _ ha)
  fresh := by
    intro a ha
    rw [(Statement.introduces_of_joins_nil rfl a).1 ha]
    exact d.newAlias_notMem (nestedBase place model)

/-- A join under an alias that the statement itself introduces makes that alias ambiguous. -/
theorem again_not_distinct {join : Join Statement} (hbase : e.baseAlias = d.baseAlias)
    (hjoins : e.joins = d.joins ++ [join]) (hown : join.tableAlias ∈ d.scope) :
    ¬e.finish.Distinct := by
  intro h
  obtain ⟨_, hnew, _⟩ := (Statement.distinct_snoc
    (show e.finish.baseAlias = d.finish.baseAlias from hbase)
    (show e.finish.joins = d.finish.joins ++ [join] from hjoins)).1 h
  exact hnew (.here hown)

/-- Joining a table once more uses an alias that is in use already. -/
theorem again_contained {table a key : String} {left : QualifiedColumn}
    (hbase : e.baseAlias = d.baseAlias) (hjoins : e.joins = d.joins ++ [.table table a left key])
    (hused : e.usedAliases = d.usedAliases) (hown : a ∈ d.scope) (hd : d.Contained earlier) :
    e.Contained earlier := by
  -- no alias is introduced that was not there
  have hold : ∀ x, e.finish.Introduces x → d.finish.Introduces x := by
    intro x hx
    rcases (Statement.introduces_snoc (show e.finish.baseAlias = d.finish.baseAlias from hbase)
      (show e.finish.joins = d.finish.joins ++ [_] from hjoins) x).1 hx with
      hold | rfl | ⟨tableAlias, inner, hjoin, _⟩
    · exact hold
    · exact .here hown
    · cases hjoin
  refine ⟨fun x hx => ?_, fun x hx => ?_, fun x hx => hd.fresh x (hold x hx)⟩
  · rw [hused]
    exact hd.used x (hold x hx)
  · rw [hused]
    exact hd.keeps x hx

/-- A single join of keys is over no join table. -/
theorem sameScope_contained_distinct {relation : Relation s} (h : SameScope d e)
    (hover : ¬relation.owner.LinksOver relation.name) (hd : d.Contained earlier) :
    e.Contained earlier ∧ (e.finish.Distinct ↔ d.finish.Distinct ∧
      ¬(relation.owner.LinksOver relation.name ∧ d.Linked d.base relation.name)) := by
  refine ⟨h.contained hd, h.distinct_iff.trans (and_iff_left ?_).symm⟩
  rintro ⟨hlinks, _⟩
  exact hover hlinks

/-- A join table below the base is joined under a new alias, unless its relation has been joined. -/
theorem joinTable_contained_distinct {d' : Draft s} {name table a key : String}
    {left : QualifiedColumn} (htidy : d.Tidy) (hd : d.Contained earlier)
    (named : d.aliasOf (d.base.child (.joinTable name)) = (a, d'))
    (hbase : e.baseAlias = d.baseAlias) (hjoins : e.joins = d.joins ++ [.table table a left key])
    (hused : e.usedAliases = d'.usedAliases) :
    e.Contained earlier ∧ (e.finish.Distinct ↔ d.finish.Distinct ∧ ¬d.Linked d.base name) := by
  have hiff := htidy.joinTable_named_iff htidy.base_joined name
  cases hjt : d.aliasAt? (d.base.child (.joinTable name)) with
  | none =>
    -- the join table gets a new alias
    rw [aliasOf_of_none hjt] at named
    cases named
    have happends :
        d.Appends (.table table (d.newAlias (d.base.child (.joinTable name))) left key) e := by
      refine ⟨hbase, hjoins, fun b hb => ?_, ?_, d.newAlias_notMem _, fun _ _ hjoin => ?_⟩
      · rw [hused]
        exact List.mem_cons_of_mem _ hb
      · rw [hused]
        exact List.mem_cons_self
      · cases hjoin
    refine ⟨happends.contained hd, (happends.distinct_iff hd).trans (and_congr_right fun _ => ?_)⟩
    constructor
    · intro _ hlinked
      rcases hiff.2 hlinked with ⟨b, hb⟩
      rw [hjt] at hb
      cases hb
    · intro _ tableAlias inner hjoin
      cases hjoin
  | some b =>
    -- the join table stands in the statement already, and its alias is taken once more
    rw [aliasOf_of_some hjt] at named
    cases named
    have hlinked : d.Linked d.base name := hiff.1 ⟨a, hjt⟩
    have hown : a ∈ d.scope := htidy.joinTable_scoped hjt
    refine ⟨again_contained hbase hjoins hused hown hd, ?_⟩
    constructor
    · intro hdistinct
      exact absurd hdistinct (again_not_distinct hbase hjoins hown)
    · rintro ⟨_, hnot⟩
      exact absurd hlinked hnot

/-- The correlation keeps the aliases distinct unless it joins a join table under an alias that is
in use. -/
theorem Correlates.contained_distinct {parentAlias : String} {relation : Relation s}
    (h : Correlates parentAlias relation d e) (htidy : d.Tidy) (hresolved : relation.Resolved)
    (hd : d.Contained earlier) :
    e.Contained earlier ∧ (e.finish.Distinct ↔ d.finish.Distinct ∧
      ¬(relation.owner.LinksOver relation.name ∧ d.Linked d.base relation.name)) := by
  have hfound := hresolved.found
  cases h with
  | hasMany named =>
    refine sameScope_contained_distinct ⟨rfl, rfl, rfl⟩ ?_ hd
    rintro ⟨_, _, _, _, _, hlinks⟩
    rw [hfound] at hlinks
    cases hlinks
  | belongsTo named =>
    refine sameScope_contained_distinct ⟨rfl, rfl, rfl⟩ ?_ hd
    rintro ⟨_, _, _, _, _, hlinks⟩
    rw [hfound] at hlinks
    cases hlinks
  | @manyToMany _ d' a name joinTable foreignKey associationKey owner target definition named =>
    -- the join table of the correlation is the one below the base of the sub-query
    have hover : owner.LinksOver name := ⟨_, _, _, _, _, hfound⟩
    rcases aliasOf_frame named with ⟨hbase, hjoins⟩
    obtain ⟨hcontained, hdistinct⟩ := joinTable_contained_distinct htidy hd named
      (e := { d'.addJoin (.table joinTable a ⟨d'.baseAlias, target.primaryKey⟩ associationKey) with
          joined := d.base.child (.joinTable name) :: d'.joined }.pushWhere
            (equalColumns ⟨a, foreignKey⟩ ⟨parentAlias, owner.primaryKey⟩))
      hbase (congrArg (· ++ [_]) hjoins) rfl
    refine ⟨hcontained, hdistinct.trans (and_congr_right fun _ => not_congr ?_)⟩
    exact (and_iff_right hover).symm

/-! ## Growing drafts -/

/-- In a built sub-query, a relation is linked right below the base if the sub-query enters it and
the model joins it over a join table. -/
theorem linked_built_iff {model : Model s} {place : TablePath} {names : List String} {built : Draft s}
    (hsteady : (d.nestedDraft place model).Steady built)
    (hspreads : Spreads (.root model.table) names (d.nestedDraft place model) built) (name : String) :
    built.Linked built.base name ↔ model.LinksOver name ∧ name ∈ names := by
  have hready : (d.nestedDraft place model).Ready (.root model.table) model :=
    ready_withBase model _ _ _ _
  have hbase : built.base = .root model.table := hsteady.base
  have hmem := hsteady.joined _ hready.mem
  have htyped : built.modelAt? (.root model.table) = some model :=
    (hsteady.models _ hready.mem).trans hready.typed
  -- the sub-query begins with its base alone, so what is joined below it came in later
  have hstart : (TablePath.root model.table).child (.relation name) ∉
      (d.nestedDraft place model).joined := by
    intro hchild
    have heq : (TablePath.root model.table).child (.relation name) = .root model.table :=
      List.mem_singleton.1 hchild
    exact TablePath.not_isBelow_self _ (heq ▸ TablePath.isBelow_child _ (.relation name))
  rw [hbase]
  constructor
  · rintro ⟨_, hchild, owner, howner, hlinks⟩
    rw [htyped] at howner
    cases howner
    rw [hspreads.relations] at hchild
    exact ⟨hlinks, hchild.resolve_left hstart⟩
  · rintro ⟨hlinks, hname⟩
    exact ⟨hmem, (hspreads.relations name).2 (.inr hname), model, htyped, hlinks⟩

/-- Taking over a finished sub-query, all aliases that either has used are in use. -/
theorem mem_usedAliases_takeOver {place : TablePath} {model : Model s} {done : Draft s} {a : String} :
    a ∈ (d.takeOver place model done).usedAliases ↔
      a ∈ done.usedAliases ∨ a = d.newAlias (nestedBase place model) ∨ a ∈ d.usedAliases := by
  have hused : (d.takeOver place model done).usedAliases =
      done.usedAliases.filter (· ∉ (d.giveAlias (nestedBase place model)).usedAliases) ++
        (d.giveAlias (nestedBase place model)).usedAliases := rfl
  have hgiven : a ∈ (d.giveAlias (nestedBase place model)).usedAliases ↔
      a = d.newAlias (nestedBase place model) ∨ a ∈ d.usedAliases := List.mem_cons
  rw [hused, List.mem_append, List.mem_filter, decide_eq_true_iff, hgiven]
  by_cases hown : a = d.newAlias (nestedBase place model) ∨ a ∈ d.usedAliases
  · simp [hown]
  · simp [hown]

/-- Embedding a finished sub-query, whose aliases are new. -/
theorem embed_appends {place : TablePath} {model : Model s} {done : Draft s}
    (hdone : done.Contained d.usedAliases) :
    d.Appends (.derived ((d.takeOver place model done).newAlias place) done.finish)
      (d.embed place model done) where
  baseAlias := rfl
  joins := rfl
  keeps := by
    intro a ha
    exact List.mem_cons_of_mem _ (mem_usedAliases_takeOver.2 (.inr (.inr ha)))
  used := List.mem_cons_self
  -- the alias of the derived table is new, also to the sub-query
  fresh := by
    intro hused
    exact newAlias_notMem _ place (mem_usedAliases_takeOver.2 (.inr (.inr hused)))
  inner := by
    intro tableAlias inner hjoin a ha
    cases hjoin
    have htaken : a ∈ (d.takeOver place model done).usedAliases :=
      mem_usedAliases_takeOver.2 (.inl (hdone.used a ha))
    refine ⟨List.mem_cons_of_mem _ htaken, hdone.fresh a ha, ?_⟩
    rintro rfl
    exact newAlias_notMem _ place htaken

/-- A sub-query reenters a join table by itself or somewhere inside. -/
theorem reenters_iff {relation : Relation s} {subquery : List (Condition s)} :
    Condition.Reenters (relation, subquery) ↔
      (relation.owner.LinksOver relation.name ∧ relation.target.LinksOver relation.name ∧
        relation.name ∈ Condition.enteredByEach subquery) ∨
      ∃ q ∈ Condition.subqueriesOfEach subquery, Condition.Reenters q := by
  constructor
  · rintro (⟨outward, again, entered⟩ | ⟨mem, reenters⟩)
    · exact .inl ⟨outward, again, entered⟩
    · exact .inr ⟨_, mem, reenters⟩
  · rintro (⟨outward, again, entered⟩ | ⟨q, mem, reenters⟩)
    · exact .here outward again entered
    · exact .inside mem reenters

/-- A growing draft keeps its aliases distinct if no sub-query that comes in re-enters. -/
theorem Grows.contained_distinct {subqueries : List (Relation s × List (Condition s))}
    (h : Grows subqueries d e) (htidy : d.Tidy) (hd : d.Contained earlier) :
    e.Contained earlier ∧
      (e.finish.Distinct ↔ d.finish.Distinct ∧ ∀ q ∈ subqueries, ¬Condition.Reenters q) := by
  induction h generalizing earlier with
  | refl d => simpa using hd
  | trans first second ihFirst ihSecond =>
    rcases ihFirst htidy hd with ⟨hcontained, hdistinct⟩
    rcases ihSecond (first.tidy_steady htidy).1 hcontained with ⟨hcontained', hdistinct'⟩
    refine ⟨hcontained', ?_⟩
    rw [hdistinct', hdistinct, and_assoc, List.forall_mem_append]
  | join step =>
    rcases step.contained_distinct hd with ⟨hcontained, hdistinct⟩
    exact ⟨hcontained, hdistinct.trans (by simp)⟩
  | clause step =>
    have hsame := step.sameTables.sameScope
    exact ⟨hsame.contained hd, hsame.distinct_iff.trans (by simp)⟩
  | @embed d built done table place a relation subquery trees at_table typed named resolved inner
      spreads tree_eq correlates ih =>
    have hready : (d.nestedDraft place relation.target).Ready (.root relation.target.table)
        relation.target := ready_withBase relation.target _ _ _ _
    rcases inner.tidy_steady hready.tidy with ⟨htidy', hsteady⟩
    obtain ⟨hinner, hinnerDistinct⟩ := ih hready.tidy
      (contained_nestedDraft d place relation.target)
    -- the trees of the sub-query go to its WHERE clause, which introduces nothing
    have hpush : SameScope built (built.pushWhere (.all trees)) := ⟨rfl, rfl, rfl⟩
    obtain ⟨hdone, hdoneDistinct⟩ := correlates.contained_distinct (htidy'.withPredicate _) resolved
      (hpush.contained hinner)
    have happends : d.Appends
        (.derived ((d.takeOver place relation.target done).newAlias place) done.finish)
        (d.embed place relation.target done) := embed_appends hdone
    have hlinked : (built.pushWhere (.all trees)).Linked (built.pushWhere (.all trees)).base
          relation.name ↔
        relation.target.LinksOver relation.name ∧
          relation.name ∈ Condition.enteredByEach subquery :=
      linked_built_iff hsteady spreads relation.name
    -- the aliases inside are distinct unless the correlation or a deeper sub-query repeats one
    have hempty : (d.nestedDraft place relation.target).finish.Distinct :=
      Statement.distinct_of_joins_nil rfl
    have hdoneIff : done.finish.Distinct ↔ ¬Condition.Reenters (relation, subquery) := by
      rw [hdoneDistinct, hpush.distinct_iff, hinnerDistinct, hlinked, reenters_iff]
      simp only [hempty, true_and, not_or, not_exists, not_and]
      exact and_comm
    refine ⟨happends.contained hd, (happends.distinct_iff hd).trans (and_congr_right fun _ => ?_)⟩
    rw [List.forall_mem_singleton, ← hdoneIff]
    constructor
    · intro h
      exact h _ _ rfl
    · intro h tableAlias inner' hjoin
      cases hjoin
      exact h

end Draft

/-! ## Compiled queries -/

namespace Query

variable {model : String} {query : Json} {config : Config} {plan : Plan}

/-- The aliases of a compiled statement are distinct, and those in its derived tables are none of
the ones around them, exactly if no sub-query of the query re-enters its own relation. -/
theorem aliases_distinct_iff (h : compile s model query config = .ok plan) :
    ∃ root conditions done, Compiles s model query config root conditions done plan ∧
      (done.finish.Distinct ↔
        ∀ q ∈ Condition.subqueriesOfEach conditions, ¬Condition.Reenters q) := by
  rcases compile_eq_ok_iff.1 h with ⟨root, conditions, done, hstages⟩
  rcases hstages.builds with ⟨trees, hbuilds, _⟩
  have hready : (Draft.new root config).Ready (.root root.table) root :=
    ready_withBase root config root.table [] 0
  -- a fresh draft has the alias of its base only
  have hnew : (Draft.new root config).Contained [] := by
    refine ⟨fun a ha => ?_, fun a ha => ?_, fun a _ => List.not_mem_nil⟩
    · rw [(Statement.introduces_of_joins_nil rfl a).1 ha]
      exact List.mem_cons_self
    · cases ha
  have hempty : (Draft.new root config).finish.Distinct := Statement.distinct_of_joins_nil rfl
  have hdone : SameScope (done.withPredicate (.all [])) done := ⟨rfl, rfl, rfl⟩
  rcases hbuilds.grows.contained_distinct hready.tidy hnew with ⟨_, hdistinct⟩
  refine ⟨root, conditions, done, hstages, ?_⟩
  rw [hdone.distinct_iff, hdistinct]
  exact and_iff_right hempty

/-- A sub-query over friends with a condition on the friends of these. -/
def friendsOfFriends : Json :=
  .object
    [("friends()", .array [.object [("friends.surname=", .string "Doe")],
      .object [("surname=", .string "Roe")]])]

/-- The query compiles, and its aliases are distinct exactly if its sub-query reenters nothing. -/
theorem aliases_friendsOfFriends :
    ∃ plan, compile Schema.people "Person" friendsOfFriends {} = .ok plan ∧
      plan.bindings.length = 2 ∧
      ∃ root conditions done,
        Compiles Schema.people "Person" friendsOfFriends {} root conditions done plan ∧
        (done.finish.Distinct ↔
          ∀ q ∈ Condition.subqueriesOfEach conditions, ¬Condition.Reenters q) := by
  have hbindings : (compile Schema.people "Person" friendsOfFriends {}).toOption.map
      (fun plan => plan.bindings.length) = some 2 := by
    decide +kernel
  rcases exists_of_map_toOption hbindings with ⟨plan, hplan, htwo⟩
  exact ⟨plan, hplan, htwo, aliases_distinct_iff hplan⟩

/-- The aliases that the joined derived tables introduce themselves. -/
def derivedScopes (statement : Statement) : List (List String) :=
  statement.joins.map fun
    | .derived _ inner => inner.scope
    | _ => []

/-- Here the join table stands under one alias twice: once for the friends of friends, and once to
tie the friends to the person. -/
theorem friendsOfFriends_repeats :
    ∃ root conditions statement,
      rootModel Schema.people "Person" = .ok root ∧
      Condition.ofDocument friendsOfFriends root = .ok conditions ∧
      assemble root conditions {} = .ok statement ∧ ¬statement.Distinct := by
  have hscopes : (do
      let root ← rootModel Schema.people "Person"
      let conditions ← Condition.ofDocument friendsOfFriends root
      assemble root conditions {}).toOption.map derivedScopes =
        some [["smql_sub_friends_base_people", "smql_jt_friends", "smql_friends",
          "smql_jt_friends"]] := by
    decide +kernel
  rcases exists_of_map_toOption hscopes with ⟨statement, hstatement, hscope⟩
  simp only [bind_eq_ok_iff] at hstatement
  rcases hstatement with ⟨root, hroot, conditions, hconditions, hassemble⟩
  refine ⟨root, conditions, statement, hroot, hconditions, hassemble, ?_⟩
  rintro ⟨nodup, inner, apart⟩
  rcases List.map_eq_singleton_iff.1 hscope with ⟨join, hjoins, hjoin⟩
  -- the only join is the derived table, in which an alias comes twice
  cases join with
  | derived tableAlias sub =>
    rcases inner tableAlias sub (hjoins ▸ List.mem_singleton_self _) with ⟨hsub, _, _⟩
    simp only at hjoin
    rw [hjoin] at hsub
    exact absurd hsub (by decide)
  | table => cases hjoin
  | derivedText => cases hjoin

end Query

end DocQuery
