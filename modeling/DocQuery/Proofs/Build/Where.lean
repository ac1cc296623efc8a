import DocQuery.Proofs.Build.Conditions
import DocQuery.Proofs.Predicate.Evaluate
import DocQuery.Query

namespace DocQuery

/-! # Building the WHERE clause

The WHERE clause takes the trees of the conditions one by one, while the draft grows by what the
conditions need. As nothing that grows looks at the clause, the two can be told apart.

* `buildWhere_builds`: building the clause comes to what building the conditions comes to.
* `compile_eq_ok_iff`: a compiled query has stages: its root, its conditions, the draft and the
  plan.
* `Compiles.builds`: what building its conditions comes to.
-/

open Build Draft

variable {s : Schema}

namespace Draft

variable {d e : Draft s}

/-- Selecting does not look at the clause. -/
theorem addSelect_withPredicate (d : Draft s) (item : SelectItem) (tree : Predicate Test) :
    (d.withPredicate tree).addSelect item = (d.addSelect item).withPredicate tree := by
  unfold addSelect
  simp only
  rw [apply_ite fun d : Draft s => d.withPredicate tree]
  rfl

/-- Neither does naming a path. -/
theorem aliasOf_withPredicate (d : Draft s) (path : TablePath) (tree : Predicate Test) :
    (d.withPredicate tree).aliasOf path =
      ((d.aliasOf path).1, (d.aliasOf path).2.withPredicate tree) := by
  cases h : d.aliasAt? path with
  | none =>
    have h' : (d.withPredicate tree).aliasAt? path = none := h
    rw [aliasOf_of_none h, aliasOf_of_none h']
    rfl
  | some a =>
    have h' : (d.withPredicate tree).aliasAt? path = some a := h
    rw [aliasOf_of_some h, aliasOf_of_some h']

/-- Nor naming a column. -/
theorem columnAt_withPredicate (d : Draft s) (path : TablePath) (name : String)
    (tree : Predicate Test) : (d.withPredicate tree).columnAt path name =
      ((d.columnAt path name).1, (d.columnAt path name).2.withPredicate tree) := by
  simp only [columnAt, aliasOf_withPredicate]

/-- Nor ordering. -/
theorem addOrder_withPredicate (d : Draft s) (path : TablePath) (name : String)
    (direction : Direction) (tree : Predicate Test) :
    (d.withPredicate tree).addOrder path name direction =
      (d.addOrder path name direction).withPredicate tree := by
  unfold addOrder
  simp only [columnAt_withPredicate, addSelect_withPredicate]
  generalize d.columnAt path name = column
  -- a column of the base is not selected in addition
  by_cases hbase : path = column.2.base
  · rw [if_pos hbase, if_pos (show path = (column.2.withPredicate tree).base from hbase)]
    rfl
  · rw [if_neg hbase, if_neg (show ¬path = (column.2.withPredicate tree).base from hbase)]
    rfl

/-- Nor asking for relations. -/
theorem addInclude_withPredicate (d : Draft s) (path : TablePath) (tree : Predicate Test) :
    (d.withPredicate tree).addInclude path = (d.addInclude path).withPredicate tree := by
  unfold addInclude
  rw [apply_ite fun d : Draft s => d.withPredicate tree]
  rfl

/-- A step of joining is one with any clause. -/
theorem JoinStep.withPredicate (h : JoinStep d e) (tree : Predicate Test) :
    JoinStep (d.withPredicate tree) (e.withPredicate tree) := by
  cases h with
  | single below found keys =>
    exact .single ⟨below.joined, below.named, below.typed, below.unjoined, below.unnamed⟩ found keys
  | double below found unnamed =>
    exact .double ⟨below.joined, below.named, below.typed, below.unjoined, below.unnamed⟩ found
      unnamed
  | through below found joined named =>
    exact .through ⟨below.joined, below.named, below.typed, below.unjoined, below.unnamed⟩ found
      joined named

/-- So is a step that adds a clause of another kind. -/
theorem ClauseStep.withPredicate (h : ClauseStep d e) (tree : Predicate Test) :
    ClauseStep (d.withPredicate tree) (e.withPredicate tree) := by
  cases h with
  | bind value => exact .bind value
  | @select path a joined named name =>
    rw [← addSelect_withPredicate]
    exact .select (show path ∈ (d.withPredicate tree).joined from joined) named name
  | @order path a joined named name direction =>
    rw [← addOrder_withPredicate]
    exact .order (show path ∈ (d.withPredicate tree).joined from joined) named name direction
  | load path =>
    rw [← addInclude_withPredicate]
    exact .load path
  | limit n => exact .limit n
  | offset n => exact .offset n

/-- Growing does not look at the WHERE clause. -/
theorem Grows.withPredicate {subqueries : List (Relation s × List (Condition s))}
    (h : Grows subqueries d e) (tree : Predicate Test) :
    Grows subqueries (d.withPredicate tree) (e.withPredicate tree) := by
  induction h with
  | refl d => exact .refl _
  | trans _ _ ihFirst ihSecond => exact .trans ihFirst ihSecond
  | join step => exact .join (step.withPredicate tree)
  | clause step => exact .clause (step.withPredicate tree)
  | embed at_table typed named resolved inner spreads tree_eq correlates _ =>
    -- the sub-query has a WHERE clause of its own
    exact .embed ⟨at_table.joined, at_table.child, at_table.unjoined⟩ typed named resolved inner
      spreads tree_eq correlates

/-- A draft is ready whatever its clause. -/
theorem Ready.withPredicate {table : TablePath} {m : Model s} (h : d.Ready table m)
    (tree : Predicate Test) : (d.withPredicate tree).Ready table m :=
  ⟨h.tidy.withPredicate tree, h.mem, h.typed⟩

end Draft

/-- What a run comes to does not depend on the clause. -/
theorem Builds.withPredicate {τ : Type} {table : TablePath}
    {subqueries : List (Relation s × List (Condition s))} {entered : List String}
    {advance : Progress → Progress} {result : Naming → Progress → τ} {d e : Draft s} {t : τ}
    (h : Builds table subqueries entered advance result d t e) (tree : Predicate Test) :
    Builds table subqueries entered advance result (d.withPredicate tree) t
      (e.withPredicate tree) where
  grows := h.grows.withPredicate tree
  spreads := ⟨h.spreads.keeps, h.spreads.below, h.spreads.relations⟩
  progress := by
    intro p hp
    have hat := h.progress p ⟨hp.lastParam, hp.derived⟩
    exact ⟨hat.lastParam, hat.derived⟩
  result_eq := by
    intro v p hp hv
    exact h.result_eq v p ⟨hp.lastParam, hp.derived⟩ ⟨hv.tables, hv.params⟩

namespace Condition

variable {table : TablePath} {m : Model s} {d e : Draft s}

/-- The WHERE clause gets the trees of the conditions. -/
theorem buildWhere_builds {conditions : List (Condition s)} (hc : ∀ c ∈ conditions, c.Admitted m)
    (h : d.Ready table m) {u : Unit} (hrun : (buildWhere conditions table).Runs d u e) :
    ∃ trees, Builds table (subqueriesOfEach conditions) (enteredByEach conditions)
        (advanceEach conditions table) (fun v p => treeEach v conditions table p) d trees
        (e.withPredicate d.predicate) ∧
      e.predicate = trees.foldl Predicate.push d.predicate := by
  induction conditions generalizing d u with
  | nil =>
    rw [buildWhere, runs_pure] at hrun
    rcases hrun with ⟨_, rfl⟩
    exact ⟨[], .refl table d [], rfl⟩
  | cons condition conditions ih =>
    simp only [buildWhere, runs_bind] at hrun
    rcases hrun with ⟨tree, d₁, hfirst, hrun⟩
    rcases admitted_of_cons hc with ⟨hcondition, hconditions⟩
    have hhead := build_builds condition hcondition h hfirst
    have hready₁ := h.grow hhead.grows
    have hkept : d₁.predicate = d.predicate := (hhead.grows.tidy_steady h.tidy).2.predicate
    -- pushing the tree changes the clause alone
    have hrest : (buildWhere conditions table).Runs
        (d₁.withPredicate (tree.toList.foldl Predicate.push d.predicate)) u e := by
      rw [← hkept]
      cases tree with
      | none => exact hrun
      | some tree =>
        simp only [runs_bind, runs_modify] at hrun
        rcases hrun with ⟨_, _, rfl, hrest⟩
        exact hrest
    rcases ih hconditions (hready₁.withPredicate _) hrest with ⟨trees, htail, hpredicate⟩
    refine ⟨tree.toList ++ trees, ?_, ?_⟩
    · have hshifted := htail.withPredicate d.predicate
      have hback : (d₁.withPredicate (tree.toList.foldl Predicate.push d.predicate)).withPredicate
          d.predicate = d₁ := by
        rw [← hkept]
        rfl
      rw [hback] at hshifted
      exact (hhead.bind (fun (tree : Option (Predicate Test)) trees => tree.toList ++ trees) h.tidy
        hshifted).congr rfl (fun _ _ => rfl) (fun _ _ _ => rfl)
    · rw [hpredicate, List.foldl_append]
      rfl

end Condition

namespace Query

/-- The stages of a compilation: the root, the conditions, the finished draft and the plan. -/
structure Compiles (s : Schema) (model : String) (query : Json) (config : Config) (root : Model s)
    (conditions : List (Condition s)) (done : Draft s) (plan : Plan) : Prop where
  root_eq : s.model? model = some root
  conditions_eq : Condition.ofDocument query root = .ok conditions
  run : (Condition.buildWhere conditions (.root root.table)).Runs (Draft.new root config) () done
  plan_eq : plan = done.finish.toPlan config.quoteIdentifiers

/-- Assembling gives the statement of the draft that the conditions are built into. -/
theorem assemble_eq_ok_iff {root : Model s} {conditions : List (Condition s)} {config : Config}
    {statement : Statement} : assemble root conditions config = .ok statement ↔
      ∃ done, (Condition.buildWhere conditions (.root root.table)).Runs (Draft.new root config) () done ∧
        statement = done.finish := by
  have hbase : (Draft.new root config).base = .root root.table := rfl
  simp only [assemble, hbase, Build.Runs]
  cases (Condition.buildWhere conditions (.root root.table)).runOn (Draft.new root config) with
  | mk result done =>
    cases result with
    | error e => simp
    | ok u => simp [eq_comm]

/-- A query compiles if it is read, built and finished. -/
theorem compile_eq_ok_iff {model : String} {query : Json} {config : Config} {plan : Plan} :
    compile s model query config = .ok plan ↔
      ∃ root conditions done, Compiles s model query config root conditions done plan := by
  simp only [compile, bind_eq_ok_iff, pure_eq_ok_iff, rootModel_eq_ok_iff, assemble_eq_ok_iff]
  constructor
  · rintro ⟨root, hroot, conditions, hconditions, _, ⟨done, hrun, rfl⟩, rfl⟩
    exact ⟨root, conditions, done, hroot, hconditions, hrun, rfl⟩
  · rintro ⟨root, conditions, done, hroot, hconditions, hrun, rfl⟩
    exact ⟨root, hroot, conditions, hconditions, _, ⟨done, hrun, rfl⟩, rfl⟩

variable {model : String} {query : Json} {config : Config} {root : Model s}
  {conditions : List (Condition s)} {done : Draft s} {plan : Plan}

/-- The conditions of a compiled query are admitted. -/
theorem Compiles.admitted (h : Compiles s model query config root conditions done plan) :
    ∀ c ∈ conditions, c.Admitted root :=
  Condition.admitted_of_ofDocument h.conditions_eq

/-- A new draft has bound nothing and opened no sub-query. -/
theorem at_new (root : Model s) (config : Config) : (Draft.new root config).At ⟨0, []⟩ :=
  ⟨rfl, (Draft.at_nestedDraft (Draft.new root config) (.root root.table) root).derived⟩

/-- What the whole build comes to: the draft grows by the conditions, and the WHERE clause is the
conjunction of their trees. -/
theorem Compiles.builds (h : Compiles s model query config root conditions done plan) :
    ∃ trees, Builds (.root root.table) (Condition.subqueriesOfEach conditions)
        (Condition.enteredByEach conditions) (Condition.advanceEach conditions (.root root.table))
        (fun v p => Condition.treeEach v conditions (.root root.table) p) (Draft.new root config)
        trees (done.withPredicate (.all [])) ∧ done.predicate = .all trees := by
  obtain ⟨trees, hbuilds, hpredicate⟩ := Condition.buildWhere_builds h.admitted
    (ready_withBase root config root.table [] 0) h.run
  refine ⟨trees, hbuilds, ?_⟩
  rw [hpredicate]
  exact Predicate.foldl_push .and [] trees

end Query

end DocQuery
