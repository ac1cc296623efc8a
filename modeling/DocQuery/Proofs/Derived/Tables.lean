import DocQuery.Proofs.Build.Where
import DocQuery.Proofs.Predicate.Leaves
import DocQuery.Proofs.Statement.References

namespace DocQuery

/-! # Derived tables of a build

Each sub-equal-join of a query is to have a derived table of its own: its sub-query is joined once,
at a path and under an alias that no other derived table has, and the conditions on its row ask
about this table and what is joined below it. `Housed` says so of a finished draft, and of the
drafts of its sub-queries.

* `Grows.keeps`: what a draft has joined, named and tested stays when it grows.
* `Lodges.trans`: derived tables that come in one after the other keep apart.
* `Lodges.housed`: a draft in which all derived tables are lodged houses them.
-/

open Build Draft

variable {s : Schema}

/-! ## Sub-equal-joins -/

/-- A sub-query over a relation, with conditions on the row that it picks. -/
structure DerivedJoin (s : Schema) where
  column : Column s
  relation : Relation s
  subquery : List (Condition s)
  conditions : List (Condition s)

/-- The condition that asks for it. -/
def DerivedJoin.condition (join : DerivedJoin s) : Condition s :=
  .derivedJoin join.column join.relation join.subquery join.conditions

namespace Condition

mutual

/-- The sub-equal-joins of the condition, in the order in which they are built. Those inside
sub-queries are not among them. -/
def derivedJoins : Condition s → List (DerivedJoin s)
  | .relationJoin targets => derivedJoinsOfJoins targets
  | .derivedJoin column relation subquery conditions =>
    ⟨column, relation, subquery, conditions⟩ :: derivedJoinsOfEach conditions
  | .select targets => derivedJoinsOfSelects targets
  | _ => []

def derivedJoinsOfEach : List (Condition s) → List (DerivedJoin s)
  | [] => []
  | condition :: conditions => condition.derivedJoins ++ derivedJoinsOfEach conditions

def derivedJoinsOfDocuments : List (List (Condition s)) → List (DerivedJoin s)
  | [] => []
  | document :: documents => derivedJoinsOfEach document ++ derivedJoinsOfDocuments documents

def derivedJoinsOfJoins : List (Target s (List (List (Condition s)))) → List (DerivedJoin s)
  | [] => []
  | ⟨_, documents⟩ :: targets => derivedJoinsOfDocuments documents ++ derivedJoinsOfJoins targets

def derivedJoinsOfSelects : List (Target s (List (Condition s))) → List (DerivedJoin s)
  | [] => []
  | ⟨_, conditions⟩ :: targets => derivedJoinsOfEach conditions ++ derivedJoinsOfSelects targets

end

end Condition

/-! ## Their tables -/

/-- The rows of the join are those of a statement. -/
def Join.isLateral {σ : Type} : Join σ → Bool
  | table .. => false
  | derived .. => true
  | derivedText .. => true

namespace Draft

/-- The derived tables that are joined. -/
def laterals (d : Draft s) : List (Join Statement) := d.joins.filter Join.isLateral

/-- What has been joined and named stays so. -/
structure Keeps (d e : Draft s) : Prop where
  joined : d.joined ⊆ e.joined
  aliases : ∀ path a, d.aliasAt? path = some a → e.aliasAt? path = some a
  used : d.usedAliases ⊆ e.usedAliases

/-- The aliases of the joined tables at the path and below it. -/
def aliasesFrom (d : Draft s) (table : TablePath) : List String :=
  (d.joined.filter fun path => table.steps <+: path.steps).filterMap d.aliasAt?

end Draft

/-- The derived table of a sub-equal-join. -/
structure DerivedTable (s : Schema) where
  join : DerivedJoin s
  /-- The table below which it is joined. -/
  table : TablePath
  /-- The draft in which its path is looked for. -/
  start : Draft s
  /-- The finished draft of the sub-query. -/
  inner : Draft s
  /-- The aliases of the derived tables inside the sub-query. -/
  innerAliases : List String
  /-- The tests of the conditions on its row. -/
  tests : List Test

namespace DerivedTable

/-- The path at which it is joined. -/
def place (t : DerivedTable s) : TablePath := derivedPath t.start t.table t.join.relation.name

/-- Its alias, which is made once the sub-query is finished. -/
def tableAlias (t : DerivedTable s) : String :=
  (t.start.takeOver t.place t.join.relation.target t.inner).newAlias t.place

/-- Its own alias and those inside. -/
def aliases (t : DerivedTable s) : List String := t.tableAlias :: t.innerAliases

/-- The join that brings it into the statement. -/
def lateral (t : DerivedTable s) : Join Statement := .derived t.tableAlias t.inner.finish

/-- It was built on the way to the draft: its path is the first that was free then, and it is joined
there under its alias. The conditions on its row ask about this table and those below it alone. -/
structure StandsIn (t : DerivedTable s) (d : Draft s) : Prop where
  keeps : t.start.Keeps d
  table_joined : t.table ∈ t.start.joined
  search : ∃ n, t.place = derivedCandidate t.table t.join.relation.name n ∧
    FirstFree (derivedCandidate t.table t.join.relation.name) t.start.joined n
  joined : t.place ∈ d.joined
  named : d.aliasAt? t.place = some t.tableAlias
  built : ∃ tree after, (Condition.build t.join.condition t.table).Runs t.start tree after ∧
    t.tests = Predicate.childLeaves tree.toList
  own : ∀ test ∈ t.tests, test.Within (d.aliasesFrom t.place)

end DerivedTable

/-- In the draft each of the sub-equal-joins has a derived table of its own, and nothing else is
joined laterally. No two of the tables share a path. The same holds inside the sub-queries, and the
aliases of all these tables, here and inside, are different. -/
inductive Draft.Housed : Draft s → List (DerivedJoin s) → List String → Prop where
  | intro {d : Draft s} (tables : List (DerivedTable s))
      (laterals_eq : d.laterals = tables.map DerivedTable.lateral)
      (places : (tables.map DerivedTable.place).Nodup)
      (aliases : (tables.flatMap DerivedTable.aliases).Nodup)
      (stands : ∀ t ∈ tables, t.StandsIn d)
      (tested : ∀ t ∈ tables, t.tests ⊆ d.predicate.leaves)
      (inside : ∀ t ∈ tables, Housed t.inner (Condition.derivedJoinsOfEach t.join.subquery)
        t.innerAliases) :
      Housed d (tables.map DerivedTable.join) (tables.flatMap DerivedTable.aliases)

/-! ## What stays -/

namespace Draft

variable {d e f : Draft s} {table inner : TablePath} {a : String}

theorem Keeps.refl (d : Draft s) : d.Keeps d :=
  ⟨List.Subset.refl _, fun _ _ h => h, List.Subset.refl _⟩

theorem Keeps.trans (h : d.Keeps e) (h' : e.Keeps f) : d.Keeps f where
  joined := List.Subset.trans h.joined h'.joined
  aliases := fun path a ha => h'.aliases path a (h.aliases path a ha)
  used := List.Subset.trans h.used h'.used

/-- Aliases in use stay in use. -/
theorem Grows.usedAliases_subset {subqueries : List (Relation s × List (Condition s))}
    (h : Grows subqueries d e) : d.usedAliases ⊆ e.usedAliases := by
  induction h with
  | refl => exact List.Subset.refl _
  | trans _ _ ihFirst ihSecond => exact List.Subset.trans ihFirst ihSecond
  | join step =>
    cases step with
    | single => exact List.subset_cons_self _ _
    | double => exact List.Subset.trans (List.subset_cons_self _ _) (List.subset_cons_self _ _)
    | through => exact List.Subset.refl _
  | clause step =>
    rw [step.sameTables]
    exact List.Subset.refl _
  | embed =>
    intro a ha
    exact List.mem_cons_of_mem _ (List.mem_append_right _ (List.mem_cons_of_mem _ ha))

/-- What grows keeps what it has. -/
theorem Grows.keeps {subqueries : List (Relation s × List (Condition s))} (h : Grows subqueries d e)
    (hd : d.Tidy) : d.Keeps e := by
  have hsteady := (h.tidy_steady hd).2
  exact ⟨hsteady.joined, hsteady.aliases, h.usedAliases_subset⟩

/-- A table is no lateral join. -/
theorem laterals_addJoin_table (d : Draft s) {table key : String} {left : QualifiedColumn} :
    (d.addJoin (.table table a left key)).laterals = d.laterals := by
  simp [laterals, addJoin, Join.isLateral]

/-- Without a sub-query no derived table comes in. -/
theorem Grows.laterals_eq {subqueries : List (Relation s × List (Condition s))}
    (h : Grows subqueries d e) (hnone : subqueries = []) : e.laterals = d.laterals := by
  induction h with
  | refl => rfl
  | trans _ _ ihFirst ihSecond =>
    rcases List.append_eq_nil_iff.1 hnone with ⟨hfirst, hsecond⟩
    exact (ihSecond hsecond).trans (ihFirst hfirst)
  | join step =>
    cases step with
    | single => exact laterals_addJoin_table _
    | double => exact (laterals_addJoin_table _).trans (laterals_addJoin_table _)
    | through => rfl
  | clause step =>
    rw [laterals, step.sameTables]
    rfl
  | embed => cases hnone

/-- A test is added to what is there. -/
theorem keeps_pushWhere (d : Draft s) (tree : Predicate Test) : d.Keeps (d.pushWhere tree) :=
  ⟨List.Subset.refl _, fun _ _ h => h, List.Subset.refl _⟩

/-- The tests of a clause stay when one is added. -/
theorem leaves_subset_pushWhere (d : Draft s) (tree : Predicate Test) :
    d.predicate.leaves ⊆ (d.pushWhere tree).predicate.leaves := by
  rw [pushWhere, Predicate.leaves_push]
  exact List.subset_append_left _ _

/-- Naming a path keeps what is there. -/
theorem keeps_aliasOf {path : TablePath} (h : d.aliasOf path = (a, e)) : d.Keeps e := by
  cases hpath : d.aliasAt? path with
  | none =>
    rw [aliasOf_of_none hpath] at h
    cases h
    refine ⟨List.Subset.refl _, fun q b hb => ?_, List.subset_cons_self _ _⟩
    rw [aliasAt?_giveAlias, if_neg (ne_of_unnamed hb hpath)]
    exact hb
  | some b =>
    rw [aliasOf_of_some hpath] at h
    cases h
    exact .refl d

/-- Tying a sub-query to its parent leaves its derived tables and their tests alone. -/
theorem Correlates.keeps {relation : Relation s} (h : Correlates a relation d e) :
    d.Keeps e ∧ e.laterals = d.laterals ∧ d.predicate.leaves ⊆ e.predicate.leaves := by
  cases h with
  | hasMany => exact ⟨keeps_pushWhere d _, rfl, leaves_subset_pushWhere d _⟩
  | belongsTo => exact ⟨keeps_pushWhere d _, rfl, leaves_subset_pushWhere d _⟩
  | @manyToMany _ e' a name joinTable foreignKey associationKey owner target definition named =>
    have hkeeps := keeps_aliasOf named
    have hsame := aliasOf_eq_with named
    refine ⟨⟨fun path hpath => List.mem_cons_of_mem _ (hkeeps.joined hpath), hkeeps.aliases,
      hkeeps.used⟩, ?_, ?_⟩
    · refine (laterals_addJoin_table e').trans ?_
      rw [laterals, (aliasOf_frame named).2, laterals]
    · have hpredicate : e'.predicate = d.predicate := by rw [hsame]
      rw [← hpredicate]
      exact leaves_subset_pushWhere _ _

/-! ## Aliases at and below a table -/

/-- The aliases below a table are those of the joined paths that go on from it. -/
theorem mem_aliasesFrom : a ∈ d.aliasesFrom table ↔
    ∃ path ∈ d.joined, table.steps <+: path.steps ∧ d.aliasAt? path = some a := by
  simp only [aliasesFrom, List.mem_filterMap, List.mem_filter, decide_eq_true_eq, and_assoc]

/-- The aliases below a table stay there. -/
theorem Keeps.aliasesFrom_subset (h : d.Keeps e) (table : TablePath) :
    d.aliasesFrom table ⊆ e.aliasesFrom table := by
  intro a ha
  rcases mem_aliasesFrom.1 ha with ⟨path, hjoined, hunder, hnamed⟩
  exact mem_aliasesFrom.2 ⟨path, h.joined hjoined, hunder, h.aliases path a hnamed⟩

/-- Below a table there is all that is below a table further down. -/
theorem aliasesFrom_subset_of_prefix (d : Draft s) (h : table.steps <+: inner.steps) :
    d.aliasesFrom inner ⊆ d.aliasesFrom table := by
  intro a ha
  rcases mem_aliasesFrom.1 ha with ⟨path, hjoined, hunder, hnamed⟩
  exact mem_aliasesFrom.2 ⟨path, hjoined, h.trans hunder, hnamed⟩

end Draft

/-- A derived table stands where it stood. -/
theorem DerivedTable.StandsIn.mono {t : DerivedTable s} {d e : Draft s} (h : t.StandsIn d)
    (hkeeps : d.Keeps e) : t.StandsIn e where
  keeps := h.keeps.trans hkeeps
  table_joined := h.table_joined
  search := h.search
  joined := hkeeps.joined h.joined
  named := hkeeps.aliases _ _ h.named
  built := h.built
  own := fun test htest => (h.own test htest).mono (hkeeps.aliasesFrom_subset t.place)

/-! ## Building -/

namespace Draft

variable {d e f : Draft s} {tables tables' : List (DerivedTable s)} {table inner : TablePath}
  {tests tests' : List Test}

/-- What building at a table comes to: these derived tables come in, each new and apart from the
others, and the tests ask about the table and those below it. -/
structure Lodges (tables : List (DerivedTable s)) (table : TablePath) (d : Draft s) (tests : List Test)
    (e : Draft s) : Prop where
  keeps : d.Keeps e
  laterals_eq : e.laterals = d.laterals ++ tables.map DerivedTable.lateral
  places : (tables.map DerivedTable.place).Nodup
  new_places : ∀ t ∈ tables, t.place ∉ d.joined
  aliases : (tables.flatMap DerivedTable.aliases).Nodup
  new_aliases : ∀ a ∈ tables.flatMap DerivedTable.aliases, a ∉ d.usedAliases
  used : tables.flatMap DerivedTable.aliases ⊆ e.usedAliases
  stands : ∀ t ∈ tables, t.StandsIn e
  tested : ∀ t ∈ tables, t.tests ⊆ tests
  inside : ∀ t ∈ tables,
    t.inner.Housed (Condition.derivedJoinsOfEach t.join.subquery) t.innerAliases
  own : ∀ test ∈ tests, test.Within (e.aliasesFrom table)

namespace Lodges

/-- A build without sub-queries. -/
theorem of_grows (h : Grows [] d e) (hd : d.Tidy)
    (hown : ∀ test ∈ tests, test.Within (e.aliasesFrom table)) : Lodges [] table d tests e where
  keeps := h.keeps hd
  laterals_eq := by rw [h.laterals_eq rfl, List.map_nil, List.append_nil]
  places := List.nodup_nil
  new_places := List.forall_mem_nil _
  aliases := List.nodup_nil
  new_aliases := List.forall_mem_nil _
  used := List.nil_subset _
  stands := List.forall_mem_nil _
  tested := List.forall_mem_nil _
  inside := List.forall_mem_nil _
  own := hown

/-- One build after the other: what comes in later finds its paths and aliases apart from the
earlier. -/
theorem trans (h : Lodges tables table d tests e) (h' : Lodges tables' table e tests' f) :
    Lodges (tables ++ tables') table d (tests ++ tests') f where
  keeps := h.keeps.trans h'.keeps
  laterals_eq := by
    rw [h'.laterals_eq, h.laterals_eq, List.map_append, List.append_assoc]
  -- a place that comes in later is not joined before, so it is none of the earlier places
  places := by
    rw [List.map_append, List.nodup_append']
    refine ⟨h.places, h'.places, fun place hfirst hsecond => ?_⟩
    rcases List.mem_map.1 hfirst with ⟨t, ht, rfl⟩
    rcases List.mem_map.1 hsecond with ⟨t', ht', heq⟩
    exact h'.new_places t' ht' (heq ▸ (h.stands t ht).joined)
  new_places := by
    intro t ht hjoined
    rcases List.mem_append.1 ht with ht | ht
    · exact h.new_places t ht hjoined
    · exact h'.new_places t ht (h.keeps.joined hjoined)
  -- nor is an alias that comes in later in use before
  aliases := by
    rw [List.flatMap_append, List.nodup_append']
    exact ⟨h.aliases, h'.aliases, fun a hfirst hsecond => h'.new_aliases a hsecond (h.used hfirst)⟩
  new_aliases := by
    intro a ha hused
    rw [List.flatMap_append] at ha
    rcases List.mem_append.1 ha with ha | ha
    · exact h.new_aliases a ha hused
    · exact h'.new_aliases a ha (h.keeps.used hused)
  used := by
    rw [List.flatMap_append]
    exact List.append_subset.2 ⟨List.Subset.trans h.used h'.keeps.used, h'.used⟩
  stands := by
    rw [List.forall_mem_append]
    exact ⟨fun t ht => (h.stands t ht).mono h'.keeps, h'.stands⟩
  tested := by
    rw [List.forall_mem_append]
    exact ⟨fun t ht => List.subset_append_of_subset_left _ (h.tested t ht),
      fun t ht => List.subset_append_of_subset_right _ (h'.tested t ht)⟩
  inside := by
    rw [List.forall_mem_append]
    exact ⟨h.inside, h'.inside⟩
  own := by
    rw [List.forall_mem_append]
    exact ⟨fun test htest => (h.own test htest).mono (h'.keeps.aliasesFrom_subset table), h'.own⟩

/-- What is built at a lower table is built below this one. -/
theorem of_inner (h : Lodges tables inner d tests e) (hunder : table.steps <+: inner.steps) :
    Lodges tables table d tests e :=
  { h with own := fun test htest => (h.own test htest).mono (e.aliasesFrom_subset_of_prefix hunder) }


/-- A draft that begins without derived tables houses those that come in. Afterwards its WHERE
clause is complete, and nothing that it has is taken away. -/
theorem housed (h : Lodges tables table d tests e) (hnone : d.laterals = []) {done : Draft s}
    (hkeeps : e.Keeps done) (hlaterals : done.laterals = e.laterals)
    (htests : tests ⊆ done.predicate.leaves) :
    done.Housed (tables.map DerivedTable.join) (tables.flatMap DerivedTable.aliases) := by
  refine .intro tables ?_ h.places h.aliases (fun t ht => (h.stands t ht).mono hkeeps)
    (fun t ht => List.Subset.trans (h.tested t ht) htests) h.inside
  rw [hlaterals, h.laterals_eq, hnone, List.nil_append]


end Lodges

end Draft

end DocQuery
