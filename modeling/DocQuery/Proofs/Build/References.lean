import DocQuery.Proofs.Parameters.Account
import DocQuery.Proofs.Statement.References

namespace DocQuery

/-! # References in built statements

The alias of a joined table is in the scope of the statement, and what a build writes mentions
joined tables only. So the references of a draft stay in scope, step by step, and those of every
sub-query are in scope where it is embedded.

* `scoped_of_compile`: every reference of a compiled statement is in scope where it stands.
-/

open Draft Predicate

variable {s : Schema} {allowed : Operand → Prop}

namespace Draft

variable {d e : Draft s}

/-- The clauses of the draft mention its tables, and each join those before it. -/
structure InScope (d : Draft s) : Prop where
  select : ∀ item ∈ d.select, item.Within d.scope
  order : ∀ item ∈ d.order, item.column.tableAlias ∈ d.scope
  joins : ∀ before join after, d.joins = before ++ join :: after →
    Join.ScopedAfter (d.baseAlias :: before.map Join.tableAlias) join

/-- The statement introduces the alias of a joined table. -/
theorem Tidy.joined_scoped (h : d.Tidy) {path : TablePath} {a : String} (hpath : path ∈ d.joined)
    (ha : d.aliasAt? path = some a) : a ∈ d.scope := by
  rcases h.accounted path a ha with ⟨hscope, _⟩ | ⟨place, table, heq, hplace⟩
  · exact hscope
  · -- the base of a sub-query is not joined here
    rw [heq] at hpath
    exact absurd (h.isHop (h.steps_ne_nil hplace) hpath) base_not_isHop

theorem Offers.scoped {path : TablePath} {c : QualifiedColumn} (h : d.Offers path c) (hd : d.Tidy) :
    c.tableAlias ∈ d.scope :=
  hd.joined_scoped h.joined h.named

/-- Only these clauses have references. -/
theorem InScope.congr (h : d.InScope) (hbase : e.baseAlias = d.baseAlias)
    (hselect : e.select = d.select) (horder : e.order = d.order) (hjoins : e.joins = d.joins) :
    e.InScope := by
  have hscope : e.scope = d.scope := by rw [scope, scope, hbase, hjoins]
  refine ⟨?_, ?_, ?_⟩
  · rw [hselect, hscope]
    exact h.select
  · rw [horder, hscope]
    exact h.order
  · rw [hjoins, hbase]
    exact h.joins

/-- A finished draft is scoped if the tests of its WHERE clause are. -/
theorem InScope.finish (h : d.InScope) {outer : Option (List String)} {own ties : List Test}
    (leaves : d.predicate.leaves = own ++ ties) (tests : ∀ t ∈ own, t.Within d.scope)
    (tied : Test.Ties d.scope outer ties) : Statement.Scoped outer d.finish := by
  have hnormal : d.finish.predicate.leaves = own ++ ties := by
    rw [← leaves]
    exact leaves_normalize d.predicate
  exact .intro hnormal tests tied h.select h.order h.joins

theorem inScope_withBase (model : Model s) (config : Config) (baseAlias : String)
    (usedAliases : List String) (lastParam : Nat) :
    (withBase model config baseAlias usedAliases lastParam).InScope where
  select := List.forall_mem_singleton.2 (.rowsOf List.mem_cons_self)
  order := List.forall_mem_nil _
  joins := by
    intro before join after hsplit
    have hnil : [] = before ++ join :: after := hsplit
    simp at hnil

/-! ## Joins -/

/-- A join that mentions tables of the draft can be added. -/
theorem InScope.addJoin (h : d.InScope) {join : Join Statement}
    (hjoin : Join.ScopedAfter d.scope join) : (d.addJoin join).InScope where
  select := by
    intro item hitem
    rw [scope_addJoin]
    exact (h.select item hitem).mono (List.subset_append_left _ _)
  order := by
    intro item hitem
    rw [scope_addJoin]
    exact List.mem_append_left _ (h.order item hitem)
  joins := by
    intro before other after hsplit
    -- the new join is the last one; those before it are as they were
    rcases split_snoc hsplit with ⟨rfl, rfl⟩ | ⟨after', hold⟩
    · exact hjoin
    · exact h.joins before other after' hold

/-- A table is joined to one that is there. -/
theorem InScope.introduce (h : d.InScope) (left : QualifiedColumn) (hleft : left.tableAlias ∈ d.scope)
    (path : TablePath) (table key : String) : (d.introduce path table left key).InScope := by
  have hgiven : (d.giveAlias path).InScope := h.congr rfl rfl rfl rfl
  exact hgiven.addJoin (.table hleft)

/-- Joining one relation mentions the table of its owner, and the join table where there is one. -/
theorem JoinStep.inScope (h : JoinStep d e) (hd : d.Tidy) (hs : d.InScope) : e.InScope := by
  cases h with
  | @single parent a name leftKey key owner target definition link below found keys =>
    have hjoined := hs.introduce ⟨a, leftKey⟩ (hd.joined_scoped below.joined below.named)
      (parent.child (.relation name)) target.table key
    exact hjoined.congr rfl rfl rfl rfl
  | @double parent a name joinTable foreignKey associationKey owner target definition below found
      unnamed =>
    have hfirst := hs.introduce ⟨a, owner.primaryKey⟩
      (hd.joined_scoped below.joined below.named) (parent.child (.joinTable name)) joinTable foreignKey
    -- the join table has just come in
    have hover : d.newAlias (parent.child (.joinTable name)) ∈
        (d.introduce (parent.child (.joinTable name)) joinTable ⟨a, owner.primaryKey⟩
          foreignKey).scope := by
      rw [scope_introduce]
      exact List.mem_append_right _ (List.mem_singleton_self _)
    have hsecond := hfirst.introduce ⟨d.newAlias (parent.child (.joinTable name)),
      associationKey⟩ hover (parent.child (.relation name)) target.table target.primaryKey
    exact hsecond.congr rfl rfl rfl rfl
  | through below found joined named => exact hs.congr rfl rfl rfl rfl

/-! ## Clauses -/

theorem SameTables.scope_eq (h : SameTables d e) : e.scope = d.scope := by
  rw [h]
  rfl

theorem InScope.addSelect (h : d.InScope) {c : QualifiedColumn} (hc : c.tableAlias ∈ d.scope) :
    (d.addSelect (.column c)).InScope := by
  unfold Draft.addSelect
  simp only
  split
  · exact h
  · exact ⟨List.forall_mem_append.2 ⟨h.select, List.forall_mem_singleton.2 (.column hc)⟩, h.order,
      h.joins⟩

theorem InScope.addOrder (h : d.InScope) {path : TablePath} {a : String}
    (ha : d.aliasAt? path = some a) (hscope : a ∈ d.scope) (name : String) (direction : Direction) :
    (d.addOrder path name direction).InScope := by
  have hordered : ∀ {e : Draft s}, e.InScope → e.scope = d.scope →
      ({ e with order := e.order ++ [⟨⟨a, name⟩, direction⟩] } : Draft s).InScope := by
    intro e he hsame
    refine ⟨he.select, List.forall_mem_append.2 ⟨he.order, List.forall_mem_singleton.2 ?_⟩, he.joins⟩
    exact hsame.symm ▸ hscope
  unfold Draft.addOrder
  simp only [columnAt, aliasOf_of_some ha]
  split
  · exact hordered h rfl
  · have hselected : (d.addSelect (.column ⟨a, name⟩)).InScope := h.addSelect hscope
    exact hordered hselected (sameTables_addSelect d _).scope_eq

/-! ## Sub-queries -/

/-- A draft of tests of its own may be tied to another table. -/
theorem InScope.finish_tied (h : d.InScope) {outer : List String} {own parent : QualifiedColumn}
    (htests : ∀ t ∈ d.predicate.leaves, t.Within d.scope) (hown : own.tableAlias ∈ d.scope)
    (hparent : parent.tableAlias ∈ outer) :
    Statement.Scoped (some outer) (d.pushWhere (equalColumns own parent)).finish := by
  have hpushed : (d.pushWhere (equalColumns own parent)).InScope := h.congr rfl rfl rfl rfl
  have hleaves : (d.pushWhere (equalColumns own parent)).predicate.leaves =
      d.predicate.leaves ++ [.template "%s = %s" [own, parent] []] := leaves_push _ _
  exact hpushed.finish hleaves htests (.tied hown hparent)

/-- What ties a sub-query to its parent mentions the parent's table; all else in it is its own. -/
theorem Correlates.scoped {a : String} {relation : Relation s} (h : Correlates a relation d e)
    {outer : List String} (ha : a ∈ outer) (hd : d.Tidy) (hs : d.InScope)
    (htests : ∀ t ∈ d.predicate.leaves, t.Within d.scope) :
    Statement.Scoped (some outer) e.finish := by
  cases h with
  | hasMany named => exact hs.finish_tied htests (hd.joined_scoped hd.base_joined named) ha
  | belongsTo named => exact hs.finish_tied htests (hd.joined_scoped hd.base_joined named) ha
  | @manyToMany _ e' b name joinTable foreignKey associationKey owner target definition named =>
    have hgiven := aliasOf_eq_with named
    have hscope : e'.scope = d.scope := by
      rw [hgiven]
      rfl
    have hpredicate : e'.predicate = d.predicate := by rw [hgiven]
    have hs' : e'.InScope := by
      rw [hgiven]
      exact hs.congr rfl rfl rfl rfl
    -- the join table is joined to the base of the sub-query, and its own alias is in scope then
    have hjoin : Join.ScopedAfter e'.scope
        (.table joinTable b ⟨e'.baseAlias, target.primaryKey⟩ associationKey) :=
      .table List.mem_cons_self
    have hadded : (e'.addJoin (.table joinTable b ⟨e'.baseAlias, target.primaryKey⟩
        associationKey)).scope = d.scope ++ [b] := by
      rw [scope_addJoin, hscope]
      rfl
    have htied : ({ e'.addJoin (.table joinTable b ⟨e'.baseAlias, target.primaryKey⟩
        associationKey) with
          joined := e'.base.child (.joinTable name) :: e'.joined } : Draft s).InScope :=
      (hs'.addJoin hjoin).congr rfl rfl rfl rfl
    refine htied.finish_tied (fun t ht => ?_) (hadded ▸ ?_) ha
    · have hold : t ∈ d.predicate.leaves := hpredicate ▸ ht
      exact (htests t hold).mono (hadded ▸ List.subset_append_left _ _)
    · exact List.mem_append_right _ (List.mem_singleton_self _)

/-- A scoped sub-query can be embedded. -/
theorem InScope.embed (h : d.InScope) {place : TablePath} {model : Model s} {done : Draft s}
    (hdone : Statement.Scoped (some d.scope) done.finish) : (d.embed place model done).InScope := by
  have htaken : ((d.takeOver place model done).giveAlias place).InScope := h.congr rfl rfl rfl rfl
  have hjoin : Join.ScopedAfter ((d.takeOver place model done).giveAlias place).scope
      (.derived ((d.takeOver place model done).newAlias place) done.finish) := .derived hdone
  exact (htaken.addJoin hjoin).congr rfl rfl rfl rfl

/-! ## Writing -/

/-- What a build keeps: the draft is tidy and in scope, no table is lost, and the tests ask about
tables of the draft. -/
structure KeepsScope (d : Draft s) (tests : List Test) (e : Draft s) : Prop where
  tidy : e.Tidy
  inScope : e.InScope
  scope : d.scope ⊆ e.scope
  tests : ∀ t ∈ tests, t.Within e.scope

/-- A step on other clauses keeps the scope. -/
theorem SameTables.keepsScope (h : SameTables d e) (hd : d.Tidy) (he : e.InScope) :
    KeepsScope d [] e :=
  ⟨h.tidy hd, he, h.scope_eq ▸ List.Subset.refl _, List.forall_mem_nil _⟩

/-- All that is written is in scope. -/
theorem Writes.keepsScope {tests : List Test} (h : Writes allowed d tests e) (hd : d.Tidy)
    (hs : d.InScope) : KeepsScope d tests e := by
  induction h with
  | refl d => exact ⟨hd, hs, List.Subset.refl _, List.forall_mem_nil _⟩
  | trans _ _ ihFirst ihSecond =>
    have hfirst := ihFirst hd hs
    have hsecond := ihSecond hfirst.tidy hfirst.inScope
    have hearlier := fun t ht => (hfirst.tests t ht).mono hsecond.scope
    exact ⟨hsecond.tidy, hsecond.inScope, List.Subset.trans hfirst.scope hsecond.scope,
      List.forall_mem_append.2 ⟨hearlier, hsecond.tests⟩⟩
  | join step =>
    rcases step.enters with ⟨_, _, _, _, _, _, _, henters⟩
    exact ⟨step.tidy hd, step.inScope hd hs, henters.scope, List.forall_mem_nil _⟩
  | select offers =>
    exact (sameTables_addSelect _ _).keepsScope hd (hs.addSelect (offers.scoped hd))
  | order offers direction =>
    exact (sameTables_addOrder offers.named _ direction).keepsScope hd
      (hs.addOrder offers.named (offers.scoped hd) _ direction)
  | load d path =>
    have hsame := sameTables_addInclude d path
    refine hsame.keepsScope hd (hs.congr ?_ ?_ ?_ ?_)
    · rw [hsame]
    · unfold addInclude
      split <;> rfl
    · unfold addInclude
      split <;> rfl
    · rw [hsame]
  | limit d n => exact SameTables.keepsScope rfl hd (hs.congr rfl rfl rfl rfl)
  | offset d n => exact SameTables.keepsScope rfl hd (hs.congr rfl rfl rfl rfl)
  | @test d columns values tests offered fills =>
    have hbound : SameTables d (d.bindAll values).2 := by
      rw [bindAll_eq]
      rfl
    have hs' : (d.bindAll values).2.InScope := by
      rw [bindAll_eq]
      exact hs.congr rfl rfl rfl rfl
    refine ⟨hbound.tidy hd, hs', hbound.scope_eq ▸ List.Subset.refl _, fun t ht => ?_⟩
    rcases fills.shape t ht with ⟨template, cs, ps, rfl, _, hcolumns, _⟩
    refine .template fun c hc => ?_
    rcases offered c (hcolumns c hc) with ⟨path, hoffers⟩
    rw [hbound.scope_eq]
    exact hoffers.scoped hd
  | @embed d built done table a relation trees joined named resolved inner correlates ih =>
    have hplace := place_derivedPath joined relation.name
    have hbuilt := ih (tidy_withBase _ _ _ _ _) (inScope_withBase _ _ _ _ _)
    have hpushed : ∀ t ∈ (built.pushWhere (.all trees)).predicate.leaves, t.Within built.scope := by
      rcases inner.ledger with ⟨added, joins, hledger⟩
      rw [hledger.leaves_pushWhere]
      exact hbuilt.tests
    -- the parent's table has been joined before the derived table comes in
    have hdone := correlates.scoped (hd.joined_scoped joined named) (hbuilt.tidy.withPredicate _)
      (hbuilt.inScope.congr rfl rfl rfl rfl) hpushed
    exact ⟨hd.embed hplace done, hs.embed hdone, (hd.enters_embed hplace relation.target done).scope,
      List.forall_mem_nil _⟩

end Draft

namespace Query

variable {model : String} {query : Json} {config : Config} {plan : Plan}

/-- The statement that a query is compiled to has all its references in scope, those of its
sub-queries included. -/
theorem scoped_of_compile (h : compile s model query config = .ok plan) :
    ∃ root conditions done, Compiles s model query config root conditions done plan ∧
      Statement.Scoped none done.finish := by
  rcases compile_eq_ok_iff.1 h with ⟨root, conditions, done, hcompiles⟩
  rcases hcompiles.writes (fun _ => trivial) (binds_any query) with ⟨trees, e, hwrites, rfl⟩
  have hkept := hwrites.keepsScope (tidy_withBase root config root.table [] 0)
    (inScope_withBase root config root.table [] 0)
  -- the last step only puts the tests into the predicate
  have hinScope : (e.withPredicate (.all trees)).InScope := hkept.inScope.congr rfl rfl rfl rfl
  have hleaves : (e.withPredicate (.all trees)).predicate.leaves = childLeaves trees ++ [] := by
    rw [List.append_nil]
    exact leaves_all trees
  exact ⟨root, conditions, _, hcompiles, hinScope.finish hleaves hkept.tests .alone⟩

/-- A query over the best article of each friend, with a condition on what the friends read. -/
def bestOfFriends : Json :=
  .object
    [("friends()", .array
      [.object
        [("articles()", .array
          [.object [("order:", .string "rating desc"), ("limit:", .number (.int 1))],
            .object [("title=", .string "Loops")]])],
        .object [("readings.title=", .string "Trees")]])]

theorem scoped_bestOfFriends :
    ∃ plan, compile Schema.people "Person" bestOfFriends {} = .ok plan ∧ plan.joins.length = 4 ∧
      ∃ root conditions done,
        Compiles Schema.people "Person" bestOfFriends {} root conditions done plan ∧
        Statement.Scoped none done.finish := by
  have hjoins : (compile Schema.people "Person" bestOfFriends {}).toOption.map
      (fun plan => plan.joins.length) = some 4 := by
    decide +kernel
  rcases exists_of_map_toOption hjoins with ⟨plan, hplan, hfour⟩
  exact ⟨plan, hplan, hfour, scoped_of_compile hplan⟩

end Query

end DocQuery
