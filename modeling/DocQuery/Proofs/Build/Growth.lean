import DocQuery.Proofs.Condition.Tree
import DocQuery.Proofs.Draft.Embed

namespace DocQuery

/-! # How drafts grow

`Grows` says all that building conditions can do to a draft: relations are joined (`JoinStep`),
values bound and clauses added (`ClauseStep`), and sub-queries embedded. It lists the sub-queries.
What all growing drafts keep is proved here, one case for each way of growing.

* `Grows.tidy_steady`: whatever grows stays tidy and keeps the names that it has given.
-/

variable {s : Schema}

namespace Draft

/-- The naming gives the aliases of the draft and the names of its parameters. -/
structure Names (d : Draft s) (v : Naming) : Prop where
  tables : d.NamedBy v.tables
  params : ∀ n, v.params n = d.config.paramStem ++ toString n

/-- One step on the clauses of a draft, which leaves its tables alone. -/
inductive ClauseStep (d : Draft s) : Draft s → Prop where
  | bind (value : Operand) : ClauseStep d (d.bind value).2
  | select {path : TablePath} {a : String} (joined : path ∈ d.joined)
      (named : d.aliasAt? path = some a) (name : String) :
      ClauseStep d (d.addSelect (.column ⟨a, name⟩))
  | order {path : TablePath} {a : String} (joined : path ∈ d.joined)
      (named : d.aliasAt? path = some a) (name : String) (direction : Direction) :
      ClauseStep d (d.addOrder path name direction)
  | load (path : TablePath) : ClauseStep d (d.addInclude path)
  | limit (n : Nat) : ClauseStep d (d.setLimit n)
  | offset (n : Nat) : ClauseStep d (d.setOffset n)

/-- What building conditions makes of a draft, with the sub-queries that come in. -/
inductive Grows : List (Relation s × List (Condition s)) → Draft s → Draft s → Prop where
  | refl (d : Draft s) : Grows [] d d
  | trans {subqueries subqueries' : List (Relation s × List (Condition s))} {d e f : Draft s}
      (first : Grows subqueries d e) (second : Grows subqueries' e f) :
      Grows (subqueries ++ subqueries') d f
  | join {d e : Draft s} (step : JoinStep d e) : Grows [] d e
  | clause {d e : Draft s} (step : ClauseStep d e) : Grows [] d e
  /-- A sub-query over a relation of a joined table is built, correlated and joined. -/
  | embed {d built done : Draft s} {table place : TablePath} {a : String} {relation : Relation s}
      {subquery : List (Condition s)} {trees : List (Predicate Test)}
      (at_table : d.Place table place) (typed : d.modelAt? table = some relation.owner)
      (named : d.aliasAt? table = some a) (resolved : relation.Resolved)
      (inner : Grows (Condition.subqueriesOfEach subquery) (d.nestedDraft place relation.target)
        built)
      (spreads : Spreads (.root relation.target.table) (Condition.enteredByEach subquery)
        (d.nestedDraft place relation.target) built)
      (tree_eq : ∀ v, built.Names v →
        trees = Condition.treeEach v subquery (.root relation.target.table) ⟨d.lastParam, []⟩)
      (correlates : Correlates a relation (built.pushWhere (.all trees)) done) :
      Grows [(relation, subquery)] d (d.embed place relation.target done)

/-- Joining is growing without sub-queries. -/
theorem Joins.grows {d e : Draft s} (h : Joins d e) : Grows [] d e := by
  induction h with
  | refl => exact .refl d
  | tail _ step ih => exact .trans ih (.join step)

/-! ## What stays -/

/-- The draft has only grown. -/
structure Steady (d e : Draft s) : Prop where
  config : e.config = d.config
  model : e.model = d.model
  base : e.base = d.base
  baseAlias : e.baseAlias = d.baseAlias
  predicate : e.predicate = d.predicate
  lastParam : d.lastParam ≤ e.lastParam
  aliases : ∀ q a, d.aliasAt? q = some a → e.aliasAt? q = some a
  joined : ∀ path ∈ d.joined, path ∈ e.joined
  models : ∀ path ∈ d.joined, e.modelAt? path = d.modelAt? path

theorem Steady.refl (d : Draft s) : d.Steady d :=
  ⟨rfl, rfl, rfl, rfl, rfl, Nat.le_refl _, fun _ _ h => h, fun _ h => h, fun _ _ => rfl⟩

theorem Steady.trans {d e f : Draft s} (h : d.Steady e) (h' : e.Steady f) : d.Steady f where
  config := h'.config.trans h.config
  model := h'.model.trans h.model
  base := h'.base.trans h.base
  baseAlias := h'.baseAlias.trans h.baseAlias
  predicate := h'.predicate.trans h.predicate
  lastParam := Nat.le_trans h.lastParam h'.lastParam
  aliases := fun q a ha => h'.aliases q a (h.aliases q a ha)
  joined := fun path hpath => h'.joined path (h.joined path hpath)
  models := fun path hpath => (h'.models path (h.joined path hpath)).trans (h.models path hpath)

/-- The tables of the statement are the same; its other clauses may differ. -/
def SameTables (d e : Draft s) : Prop :=
  e = { d with
    lastParam := e.lastParam, select := e.select, bindings := e.bindings, order := e.order,
    limit := e.limit, offset := e.offset, includes := e.includes }

/-- Where the tables stay, so do their names. -/
theorem SameTables.steady {d e : Draft s} (h : SameTables d e) (hparam : d.lastParam ≤ e.lastParam) :
    d.Steady e := by
  rw [h]
  exact ⟨rfl, rfl, rfl, rfl, rfl, hparam, fun _ _ h => h, fun _ h => h, fun _ _ => rfl⟩

/-- Where the tables stay, a draft stays tidy. -/
theorem SameTables.tidy {d e : Draft s} (h : SameTables d e) (hd : d.Tidy) : e.Tidy := by
  rw [h]
  exact ⟨hd.rooted, hd.base_joined, hd.hops, hd.named, hd.typed, hd.reached, hd.accounted, hd.linked⟩

/-- Selecting joins nothing. -/
theorem sameTables_addSelect (d : Draft s) (item : SelectItem) : SameTables d (d.addSelect item) := by
  unfold addSelect
  simp only
  split
  · rfl
  · rfl

/-- Asking for a relation to be loaded joins nothing. -/
theorem sameTables_addInclude (d : Draft s) (path : TablePath) :
    SameTables d (d.addInclude path) := by
  unfold addInclude
  split
  · rfl
  · rfl

theorem SameTables.trans {d e f : Draft s} (h : SameTables d e) (h' : SameTables e f) :
    SameTables d f := by
  unfold SameTables
  rw [h', h]

/-- Ordering by a column of a named table joins nothing. -/
theorem sameTables_addOrder {d : Draft s} {path : TablePath} {a : String}
    (ha : d.aliasAt? path = some a) (name : String) (direction : Direction) :
    SameTables d (d.addOrder path name direction) := by
  unfold addOrder
  simp only [columnAt, aliasOf_of_some ha]
  split
  · rfl
  · exact (sameTables_addSelect d (.column ⟨a, name⟩)).trans rfl

/-- Selecting binds nothing. -/
theorem lastParam_addSelect (d : Draft s) (item : SelectItem) :
    (d.addSelect item).lastParam = d.lastParam := by
  unfold addSelect
  simp only
  split <;> rfl

/-- Ordering binds nothing. -/
theorem lastParam_addOrder {d : Draft s} {path : TablePath} {a : String}
    (ha : d.aliasAt? path = some a) (name : String) (direction : Direction) :
    (d.addOrder path name direction).lastParam = d.lastParam := by
  unfold addOrder
  simp only [columnAt, aliasOf_of_some ha]
  split
  · rfl
  · exact lastParam_addSelect d (.column ⟨a, name⟩)

/-- Asking for a relation to be loaded binds nothing. -/
theorem lastParam_addInclude (d : Draft s) (path : TablePath) :
    (d.addInclude path).lastParam = d.lastParam := by
  unfold addInclude
  split <;> rfl

/-- No clause joins a table. -/
theorem ClauseStep.sameTables {d e : Draft s} (h : ClauseStep d e) : SameTables d e := by
  cases h with
  | bind value => rfl
  | select joined named name => exact sameTables_addSelect d _
  | order joined named name direction => exact sameTables_addOrder named name direction
  | load path => exact sameTables_addInclude d path
  | limit n => rfl
  | offset n => rfl

/-- Parameters are only added. -/
theorem ClauseStep.lastParam_le {d e : Draft s} (h : ClauseStep d e) : d.lastParam ≤ e.lastParam := by
  cases h with
  | bind value => exact Nat.le_succ _
  | select joined named name => exact Nat.le_of_eq (lastParam_addSelect d _).symm
  | order joined named name direction =>
    exact Nat.le_of_eq (lastParam_addOrder named name direction).symm
  | load path => exact Nat.le_of_eq (lastParam_addInclude d path).symm
  | limit n => exact Nat.le_refl _
  | offset n => exact Nat.le_refl _

/-- A table that enters leaves the names of the others alone. -/
theorem Enters.steady {d e : Draft s} {path : TablePath} {model : Model s}
    (h : d.Enters path model e) (hconfig : e.config = d.config)
    (hbaseAlias : e.baseAlias = d.baseAlias) (hpredicate : e.predicate = d.predicate)
    (hparam : d.lastParam ≤ e.lastParam) : d.Steady e where
  config := hconfig
  model := h.sameModel
  base := h.sameBase
  baseAlias := hbaseAlias
  predicate := hpredicate
  lastParam := hparam
  aliases := h.keeps
  joined := fun _ hpath => h.mem_joined.2 (.inr hpath)
  models := fun _ hpath => h.modelAt?_eq hpath

/-- Neither does a step of joining touch them. -/
theorem JoinStep.steady {d e : Draft s} (h : JoinStep d e) : d.Steady e := by
  cases h with
  | single below found keys => exact below.enters_single.steady rfl rfl rfl (Nat.le_refl _)
  | double below found unnamed =>
    exact (below.enters_double unnamed).steady rfl rfl rfl (Nat.le_refl _)
  | through below found joined named => exact below.enters_through.steady rfl rfl rfl (Nat.le_refl _)

/-- A growing draft stays tidy and keeps what it has. -/
theorem Grows.tidy_steady {subqueries : List (Relation s × List (Condition s))} {d e : Draft s}
    (h : Grows subqueries d e) (hd : d.Tidy) : e.Tidy ∧ d.Steady e := by
  induction h with
  | refl d => exact ⟨hd, .refl d⟩
  | trans _ _ ihFirst ihSecond =>
    rcases ihFirst hd with ⟨htidy, hsteady⟩
    rcases ihSecond htidy with ⟨htidy', hsteady'⟩
    exact ⟨htidy', hsteady.trans hsteady'⟩
  | join step => exact ⟨step.tidy hd, step.steady⟩
  | clause step => exact ⟨step.sameTables.tidy hd, step.sameTables.steady step.lastParam_le⟩
  | embed at_table typed named resolved inner spreads tree_eq correlates ih =>
    -- the sub-query has a draft of its own; here its table is entered
    exact ⟨hd.embed at_table _, (hd.enters_embed at_table _ _).steady rfl rfl rfl (Nat.le_max_left _ _)⟩

end Draft

end DocQuery
