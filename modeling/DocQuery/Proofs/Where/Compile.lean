import DocQuery.Proofs.Build.Where
import DocQuery.Proofs.Where.Meaning

namespace DocQuery

/-! # The WHERE clause means what the conditions say

A plan's predicate has the value of the query's conditions, for every truth of the tests in it.

* `evaluate_predicate`: the predicate of a plan has the meaning of the query's conditions.
-/

variable {s : Schema}

/-- The aliases that the tables of a draft have, and the names of its parameters. -/
def Draft.naming (d : Draft s) : Naming where
  tables path := (d.aliasAt? path).getD ""
  params n := d.config.paramStem ++ toString n

theorem Draft.names_naming (d : Draft s) : d.Names d.naming where
  tables := by
    intro path a ha
    simp only [naming, ha, Option.getD_some]
  params := fun _ => rfl

namespace Query

variable {model : String} {query : Json} {config : Config} {plan : Plan}

theorem predicate_toPlan (quoted : Bool) (statement : Statement) :
    (statement.toPlan quoted).predicate = statement.predicate.map (Test.toFragment quoted) := by
  cases statement
  rw [Statement.toPlan]

/-- The plan's predicate has the meaning of the parsed conditions, all of which must hold. Each test
is on the aliases that the statement gives the tables, and on parameters numbered in order from 1. -/
theorem evaluate_predicate (h : compile s model query config = .ok plan) :
    ∃ root conditions done, Compiles s model query config root conditions done plan ∧
      ∀ truth : Fragment → Bool, plan.predicate.evaluate truth =
        allOf (Condition.meaningEach
          ⟨done.naming, fun test => truth (test.toFragment config.quoteIdentifiers)⟩
          conditions (.root root.table) ⟨0, []⟩) := by
  rcases compile_eq_ok_iff.1 h with ⟨root, conditions, done, hstages⟩
  refine ⟨root, conditions, done, hstages, fun truth => ?_⟩
  rcases hstages.builds with ⟨trees, hbuilds, hpredicate⟩
  -- the trees that were built are those that the conditions say, under the names that they got
  have htrees : trees = Condition.treeEach done.naming conditions (.root root.table) ⟨0, []⟩ :=
    hbuilds.result_eq _ _ (at_new root config) ⟨done.names_naming.tables, done.names_naming.params⟩
  -- neither normalizing the tree nor printing its tests changes its value
  have hfinish : plan.predicate =
      (Predicate.all trees).normalize.map (Test.toFragment config.quoteIdentifiers) := by
    rw [hstages.plan_eq, predicate_toPlan, ← hpredicate]
    rfl
  rw [hfinish, Predicate.evaluate_map, Predicate.evaluate_normalize, Predicate.all, evaluate_node,
    htrees]
  exact Condition.allOf_treeEach
    ⟨done.naming, fun test => truth (test.toFragment config.quoteIdentifiers)⟩ conditions _ _

theorem evaluate_manyWays :
    ∃ plan, compile Schema.people "Person" manyWays {} = .ok plan ∧ plan.bindings.length = 4 ∧
      ∃ root conditions done,
        Compiles Schema.people "Person" manyWays {} root conditions done plan ∧
        ∀ truth : Fragment → Bool, plan.predicate.evaluate truth =
          allOf (Condition.meaningEach ⟨done.naming, fun test => truth (test.toFragment false)⟩
            conditions (.root root.table) ⟨0, []⟩) := by
  have hbindings : (compile Schema.people "Person" manyWays {}).toOption.map
      (fun plan => plan.bindings.length) = some 4 := by
    decide +kernel
  rcases exists_of_map_toOption hbindings with ⟨plan, hplan, hfour⟩
  exact ⟨plan, hplan, hfour, evaluate_predicate hplan⟩

end Query

end DocQuery
