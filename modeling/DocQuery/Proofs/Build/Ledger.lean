import DocQuery.Proofs.Build.Writes

namespace DocQuery

/-! # What a build binds

A build binds the next parameters in their order. Every parameter of its tests is one of these, and
each of these is in one of its tests, where the tests of embedded sub-queries count.

* `bindAll_eq`: binding values takes the next names, in their order.
* `Writes.ledger`: a build that writes tests keeps account of what it binds.
-/

open Draft Predicate

variable {s : Schema} {allowed : Operand → Prop}

/-- The test may have a parameter with the value. -/
def Test.Suits (allowed : Operand → Prop) (t : Test) (value : Operand) : Prop :=
  allowed value ∨ t.IsMembership

/-- The value is an allowed one, or a list of some. -/
def Operand.Kept (allowed : Operand → Prop) (value : Operand) : Prop :=
  allowed value ∨ ∃ items, value = .list items ∧ items ≠ [] ∧ ∀ item ∈ items, allowed item

namespace Draft

/-- The names of the next `n` parameters. -/
def nextNames (d : Draft s) (n : Nat) : List String :=
  (List.range' (d.lastParam + 1) n).map fun i => d.config.paramStem ++ toString i

/-- What has been bound and joined between two drafts, with the tests that came of it. -/
structure Ledger (allowed : Operand → Prop) (d : Draft s) (tests : List Test) (e : Draft s)
    (added : List Binding) (joins : List (Join Statement)) : Prop where
  config : e.config = d.config
  predicate : e.predicate = d.predicate
  joins_eq : e.joins = d.joins ++ joins
  bindings_eq : e.bindings = d.bindings ++ added
  lastParam_eq : e.lastParam = d.lastParam + added.length
  names : added.map Prod.fst = d.nextNames added.length
  /-- The parameters of the tests have been bound, to values that suit them. -/
  bound : ∀ t ∈ tests ++ Statement.joinTests joins, ∀ name ∈ t.params,
    ∃ value, (name, value) ∈ added ∧ t.Suits allowed value
  /-- What has been bound is in a test. -/
  used : ∀ b ∈ added, ∃ t ∈ tests ++ Statement.joinTests joins, b.1 ∈ t.params
  kept : ∀ b ∈ added, b.2.Kept allowed

variable {d e f : Draft s} {tests tests' : List Test} {added added' : List Binding}
  {joins joins' : List (Join Statement)}

theorem nextNames_add (d : Draft s) (m n : Nat) :
    d.nextNames (m + n) = d.nextNames m ++
      (List.range' (d.lastParam + m + 1) n).map fun i => d.config.paramStem ++ toString i := by
  have hrange : List.range' (d.lastParam + 1) (m + n)
      = List.range' (d.lastParam + 1) m ++ List.range' (d.lastParam + m + 1) n := by
    rw [← List.range'_append_1, Nat.add_right_comm]
  rw [nextNames, hrange, List.map_append, nextNames]

theorem Ledger.trans (h : Ledger allowed d tests e added joins)
    (h' : Ledger allowed e tests' f added' joins') :
    Ledger allowed d (tests ++ tests') f (added ++ added') (joins ++ joins') where
  config := h'.config.trans h.config
  predicate := h'.predicate.trans h.predicate
  joins_eq := by rw [h'.joins_eq, h.joins_eq, List.append_assoc]
  bindings_eq := by rw [h'.bindings_eq, h.bindings_eq, List.append_assoc]
  lastParam_eq := by rw [h'.lastParam_eq, h.lastParam_eq, List.length_append, Nat.add_assoc]
  names := by
    rw [List.map_append, h.names, h'.names, List.length_append, nextNames_add, nextNames, nextNames,
      h.lastParam_eq, h.config]
  bound := by
    intro t ht name hname
    rw [Statement.joinTests_append] at ht
    -- a test is of the first step or of the second, and so are the tests of the joins
    have hside : t ∈ tests ++ Statement.joinTests joins ∨ t ∈ tests' ++ Statement.joinTests joins' := by
      simp only [List.mem_append] at ht ⊢
      tauto
    rcases hside with ht | ht
    · rcases h.bound t ht name hname with ⟨value, hmem, hsuits⟩
      exact ⟨value, List.mem_append_left _ hmem, hsuits⟩
    · rcases h'.bound t ht name hname with ⟨value, hmem, hsuits⟩
      exact ⟨value, List.mem_append_right _ hmem, hsuits⟩
  used := by
    intro b hb
    rw [Statement.joinTests_append]
    rcases List.mem_append.1 hb with hb | hb
    · rcases h.used b hb with ⟨t, ht, hname⟩
      refine ⟨t, ?_, hname⟩
      simp only [List.mem_append] at ht ⊢
      tauto
    · rcases h'.used b hb with ⟨t, ht, hname⟩
      refine ⟨t, ?_, hname⟩
      simp only [List.mem_append] at ht ⊢
      tauto
  kept := List.forall_mem_append.2 ⟨h.kept, h'.kept⟩

/-- A step that binds nothing and joins tables alone. -/
theorem Ledger.of_tables (hconfig : e.config = d.config) (hpredicate : e.predicate = d.predicate)
    (hjoins : e.joins = d.joins ++ joins) (hbindings : e.bindings = d.bindings)
    (hparam : e.lastParam = d.lastParam) (htests : Statement.joinTests joins = []) :
    Ledger allowed d [] e [] joins where
  config := hconfig
  predicate := hpredicate
  joins_eq := hjoins
  bindings_eq := by rw [hbindings, List.append_nil]
  lastParam_eq := hparam
  names := rfl
  bound := by simp [htests]
  used := List.forall_mem_nil _
  kept := List.forall_mem_nil _

theorem JoinStep.ledger (h : JoinStep d e) : ∃ joins, Ledger allowed d [] e [] joins := by
  cases h with
  | single below found keys => exact ⟨[_], .of_tables rfl rfl rfl rfl rfl rfl⟩
  | double below found unnamed =>
    exact ⟨[_, _], .of_tables rfl rfl (List.append_assoc _ _ _) rfl rfl rfl⟩
  | through below found joined named =>
    exact ⟨[], .of_tables rfl rfl (List.append_nil _).symm rfl rfl rfl⟩

/-- A step that leaves all but other clauses alone. -/
theorem SameTables.ledger (h : SameTables d e) (hbindings : e.bindings = d.bindings)
    (hparam : e.lastParam = d.lastParam) : Ledger allowed d [] e [] [] := by
  refine .of_tables ?_ ?_ ?_ hbindings hparam rfl
  · rw [h]
  · rw [h]
  · rw [h, List.append_nil]

/-! ## Bound values -/

/-- Values are bound to the next parameters in their order. -/
theorem bindAll_eq (d : Draft s) (values : List Operand) :
    d.bindAll values = (d.nextNames values.length,
      { d with
        lastParam := d.lastParam + values.length
        bindings := d.bindings ++ (d.nextNames values.length).zip values }) := by
  induction values generalizing d with
  | nil => simp [bindAll, nextNames]
  | cons value values ih =>
    have hbind : d.bind value = (d.config.paramStem ++ toString (d.lastParam + 1),
        { d with
          lastParam := d.lastParam + 1
          bindings := d.bindings ++ [(d.config.paramStem ++ toString (d.lastParam + 1), value)] }) :=
      rfl
    have hnames : d.nextNames (values.length + 1) =
        (d.config.paramStem ++ toString (d.lastParam + 1)) ::
          (List.range' (d.lastParam + 1 + 1) values.length).map fun i =>
            d.config.paramStem ++ toString i := by
      rw [nextNames, List.range'_succ, List.map_cons]
    rw [bindAll, hbind]
    simp only [ih, List.length_cons, hnames, List.zip_cons_cons]
    simp [nextNames, Nat.add_assoc, Nat.add_comm 1]

theorem length_nextNames (d : Draft s) (n : Nat) : (d.nextNames n).length = n := by
  simp [nextNames]

theorem Ledger.of_test {columns : List QualifiedColumn} {values : List Operand} {tests : List Test}
    (fills : Fills allowed columns (d.bindAll values).1 values tests) :
    Ledger allowed d tests (d.bindAll values).2 ((d.nextNames values.length).zip values) [] := by
  rw [bindAll_eq] at fills ⊢
  have hlength := d.length_nextNames values.length
  have hzip : ((d.nextNames values.length).zip values).length = values.length := by
    rw [List.length_zip, hlength, Nat.min_self]
  refine ⟨rfl, rfl, (List.append_nil _).symm, rfl, ?_, ?_, ?_, ?_, ?_⟩
  · rw [hzip]
  · rw [hzip, List.map_fst_zip (Nat.le_of_eq hlength)]
  · intro t ht name hname
    rw [Statement.joinTests, List.append_nil] at ht
    rcases fills.shape t ht with ⟨template, cs, ps, rfl, _, _, hps⟩
    -- a parameter has the value at its place
    have hvalue : name ∈ ((d.nextNames values.length).zip values).map Prod.fst := by
      rw [List.map_fst_zip (Nat.le_of_eq hlength)]
      exact hps name hname
    rcases List.mem_map.1 hvalue with ⟨⟨_, value⟩, hmem, rfl⟩
    refine ⟨value, hmem, ?_⟩
    rcases fills.kept with hall | ⟨items, _, _, _, hmember⟩
    · exact .inl (hall value (List.of_mem_zip hmem).2)
    · exact .inr (hmember _ ht)
  · intro b hb
    rcases fills.used b.1 (List.of_mem_zip hb).1 with ⟨t, ht, hname⟩
    exact ⟨t, List.mem_append_left _ ht, hname⟩
  · intro b hb
    have hvalue := (List.of_mem_zip hb).2
    rcases fills.kept with hall | ⟨items, rfl, hsome, hitems, _⟩
    · exact .inl (hall _ hvalue)
    · exact .inr ⟨items, List.mem_singleton.1 hvalue, hsome, hitems⟩

/-! ## Sub-queries -/

/-- What a correlation adds: perhaps a join of a table, and a test of two columns. -/
structure Correlation (d e : Draft s) : Prop where
  bindings_eq : e.bindings = d.bindings
  lastParam_eq : e.lastParam = d.lastParam
  joins_eq : ∃ joins, e.joins = d.joins ++ joins ∧ Statement.joinTests joins = []
  leaves_eq : ∃ left right,
    e.predicate.leaves = d.predicate.leaves ++ [.template "%s = %s" [left, right] []]

theorem Correlates.correlation {a : String} {relation : Relation s} (h : Correlates a relation d e) :
    Correlation d e := by
  cases h with
  | hasMany named =>
    exact ⟨rfl, rfl, ⟨[], (List.append_nil _).symm, rfl⟩, _, _, leaves_push _ _⟩
  | belongsTo named =>
    exact ⟨rfl, rfl, ⟨[], (List.append_nil _).symm, rfl⟩, _, _, leaves_push _ _⟩
  | @manyToMany _ e' b name joinTable foreignKey associationKey owner target definition named =>
    have hsame : e'.bindings = d.bindings ∧ e'.lastParam = d.lastParam ∧ e'.joins = d.joins ∧
        e'.predicate = d.predicate := by
      have hsnd := congrArg Prod.snd named
      simp only at hsnd
      rw [← hsnd]
      -- giving an alias touches no clause
      unfold aliasOf
      split <;> exact ⟨rfl, rfl, rfl, rfl⟩
    rcases hsame with ⟨hbindings, hparam, hjoins, hpredicate⟩
    refine ⟨hbindings, hparam, ⟨[.table joinTable b ⟨e'.baseAlias, target.primaryKey⟩ associationKey],
      congrArg (· ++ _) hjoins, rfl⟩, ⟨b, foreignKey⟩, ⟨a, owner.primaryKey⟩, ?_⟩
    rw [← hpredicate]
    exact leaves_push _ _

/-- The WHERE clause of a sub-query has the tests of its trees. -/
theorem Ledger.leaves_pushWhere {model : Model s} {place : TablePath}
    {trees : List (Predicate Test)} {built : Draft s}
    (h : Ledger allowed (d.nestedDraft place model) (childLeaves trees) built added joins) :
    (built.pushWhere (.all trees)).predicate.leaves = childLeaves trees := by
  have hpush : (built.pushWhere (.all trees)).predicate.leaves
      = built.predicate.leaves ++ (Predicate.all trees).leaves := leaves_push _ _
  rw [hpush, h.predicate, Predicate.all, leaves]
  rfl

/-- A finished sub-query has the tests of its trees and those of its own sub-queries. -/
theorem Ledger.tests_finish {model : Model s} {place : TablePath} {trees : List (Predicate Test)}
    {built done : Draft s}
    (h : Ledger allowed (d.nestedDraft place model) (childLeaves trees) built added joins)
    (hcorrelation : Correlation (built.pushWhere (.all trees)) done) :
    ∃ left right, done.finish.tests = Statement.joinTests joins ++
      (childLeaves trees ++ [.template "%s = %s" [left, right] []]) := by
  rcases hcorrelation.joins_eq with ⟨more, hjoins, hmore⟩
  rcases hcorrelation.leaves_eq with ⟨left, right, hleaves⟩
  -- the sub-query's own tests come first and the correlation last
  have hbuilt := h.leaves_pushWhere
  have hnested : built.joins = joins := by
    have hjoins := h.joins_eq
    simpa [nestedDraft, withBase] using hjoins
  have hpushed : (built.pushWhere (.all trees)).joins = joins := hnested
  refine ⟨left, right, ?_⟩
  have htests : done.finish.tests =
      Statement.joinTests done.joins ++ done.predicate.normalize.leaves := rfl
  rw [htests, leaves_normalize, hleaves, hjoins, Statement.joinTests_append, hmore, hpushed, hbuilt,
    List.append_nil]

theorem Ledger.embed {model : Model s} {place : TablePath} {trees : List (Predicate Test)}
    {built done : Draft s}
    (h : Ledger allowed (d.nestedDraft place model) (childLeaves trees) built added joins)
    (hcorrelation : Correlation (built.pushWhere (.all trees)) done) :
    Ledger allowed d [] (d.embed place model done) added
      [.derived ((d.takeOver place model done).newAlias place) done.finish] := by
  have hbuilt : built.bindings = added := by
    have hbindings := h.bindings_eq
    simpa [nestedDraft, withBase] using hbindings
  have hbindings : done.bindings = added := hcorrelation.bindings_eq.trans hbuilt
  have hparam : done.lastParam = d.lastParam + added.length :=
    hcorrelation.lastParam_eq.trans h.lastParam_eq
  rcases h.tests_finish hcorrelation with ⟨left, right, htests⟩
  have hmem : ∀ t, t ∈ [] ++ Statement.joinTests
      [.derived ((d.takeOver place model done).newAlias place) done.finish] ↔
        t ∈ childLeaves trees ++ Statement.joinTests joins ∨
          t = .template "%s = %s" [left, right] [] := by
    intro t
    have hone : Statement.joinTests
        [.derived ((d.takeOver place model done).newAlias place) done.finish] = done.finish.tests :=
      List.append_nil _
    rw [List.nil_append, hone, htests]
    simp only [List.mem_append, List.mem_singleton]
    tauto
  refine ⟨rfl, rfl, rfl, ?_, ?_, h.names, ?_, ?_, h.kept⟩
  · show d.bindings ++ done.bindings = _
    rw [hbindings]
  · show max d.lastParam done.lastParam = _
    rw [hparam]
    omega
  · intro t ht name hname
    rcases (hmem t).1 ht with ht | rfl
    · exact h.bound t ht name hname
    · -- the test of the correlation has no parameters
      cases hname
  · intro b hb
    rcases h.used b hb with ⟨t, ht, hname⟩
    exact ⟨t, (hmem t).2 (.inl ht), hname⟩

theorem bindings_addSelect (d : Draft s) (item : SelectItem) :
    (d.addSelect item).bindings = d.bindings := by
  unfold addSelect
  simp only
  split <;> rfl

/-- Writing keeps a ledger. -/
theorem Writes.ledger (h : Writes allowed d tests e) :
    ∃ added joins, Ledger allowed d tests e added joins := by
  induction h with
  | refl d => exact ⟨[], [], .of_tables rfl rfl (List.append_nil _).symm rfl rfl rfl⟩
  | trans _ _ ihFirst ihSecond =>
    rcases ihFirst with ⟨added, joins, hfirst⟩
    rcases ihSecond with ⟨added', joins', hsecond⟩
    exact ⟨_, _, hfirst.trans hsecond⟩
  | join step =>
    rcases step.ledger with ⟨joins, hjoins⟩
    exact ⟨[], joins, hjoins⟩
  | @select d path c offers =>
    exact ⟨[], [], (sameTables_addSelect _ _).ledger (bindings_addSelect _ _)
      (lastParam_addSelect _ _)⟩
  -- an order may also select its column, which binds nothing
  | @order d path c offers direction =>
    have hbindings : (d.addOrder path c.column direction).bindings = d.bindings := by
      unfold addOrder
      simp only [columnAt, aliasOf_of_some offers.named]
      split
      · rfl
      · exact bindings_addSelect _ _
    exact ⟨[], [], (sameTables_addOrder offers.named _ _).ledger hbindings
      (lastParam_addOrder offers.named _ _)⟩
  | load d path =>
    have hbindings : (d.addInclude path).bindings = d.bindings := by
      unfold addInclude
      split <;> rfl
    exact ⟨[], [], (sameTables_addInclude _ _).ledger hbindings (lastParam_addInclude _ _)⟩
  | limit d n => exact ⟨[], [], SameTables.ledger rfl rfl rfl⟩
  | offset d n => exact ⟨[], [], SameTables.ledger rfl rfl rfl⟩
  | test offered fills => exact ⟨_, [], .of_test fills⟩
  | embed joined named resolved inner correlates ih =>
    rcases ih with ⟨added, joins, hinner⟩
    exact ⟨added, _, hinner.embed correlates.correlation⟩

end Draft

end DocQuery
