import DocQuery.Proofs.Append.Draft
import DocQuery.Proofs.Build.Blind
import DocQuery.Proofs.Document.Rules
import DocQuery.Proofs.Includes.Loaded
import DocQuery.Proofs.Where.Compile

namespace DocQuery

/-! # Queries with more entries

Entries that are added behind those of a query extend its plan. What the plan has stays where it is,
and the WHERE clause is the old one together with what the added entries say.

* `Compiles.builds_append`: a build of more entries goes on where the build of the first ones ended.
* `prolongs_of_compile`: the plan of the longer query prolongs that of the shorter one.
-/

open Draft

variable {s : Schema}

/-! ## Plans -/

/-- The clauses of the second plan go on where those of the first end, and all that the first loads
the second loads too. -/
structure Plan.Prolongs (p p' : Plan) : Prop where
  joins : p.joins <+: p'.joins
  bindings : p.bindings <+: p'.bindings
  select : p.select <+: p'.select
  order : p.order <+: p'.order
  includes : ∀ names, (p.includes.find? names).isSome → (p'.includes.find? names).isSome

theorem Statement.joinTexts_append (quoted : Bool) (joins more : List (Join Statement)) :
    joinTexts quoted (joins ++ more) = joinTexts quoted joins ++ joinTexts quoted more := by
  induction joins with
  | nil => rfl
  | cons join joins ih => rw [List.cons_append, joinTexts, joinTexts, ih, List.cons_append]

theorem Statement.joinTexts_prefix (quoted : Bool) {joins joins' : List (Join Statement)}
    (h : joins <+: joins') : joinTexts quoted joins <+: joinTexts quoted joins' := by
  rcases h with ⟨more, rfl⟩
  rw [joinTexts_append]
  exact List.prefix_append _ _

/-- Paths that come behind others add nodes to the tree. -/
theorem IncludeTree.isSome_find?_ofPaths_of_prefix {paths paths' : List (List String)}
    (h : paths <+: paths') {names : List String} (hfound : ((ofPaths paths).find? names).isSome) :
    ((ofPaths paths').find? names).isSome := by
  rw [isSome_find?_ofPaths] at hfound ⊢
  rcases hfound with hroot | ⟨path, hmem, hway⟩
  · exact .inl hroot
  · exact .inr ⟨path, h.subset hmem, hway⟩

/-- The plan of a longer draft prolongs that of a shorter one. -/
theorem Draft.Prolongs.toPlan {d e : Draft s} (h : d.Prolongs e) (quoted : Bool) :
    (d.finish.toPlan quoted).Prolongs (e.finish.toPlan quoted) := by
  simp only [finish, Statement.toPlan]
  exact {
    joins := Statement.joinTexts_prefix quoted h.joins
    bindings := h.bindings
    select := h.select.map _
    order := h.order.map _
    includes := fun _ hfound =>
      IncludeTree.isSome_find?_ofPaths_of_prefix (h.includes.map TablePath.relationNames) hfound }

/-- The plan's predicate has the value of the tests in the draft. -/
theorem Draft.evaluate_predicate_toPlan (d : Draft s) (quoted : Bool) (truth : Fragment → Bool) :
    (d.finish.toPlan quoted).predicate.evaluate truth =
      d.predicate.evaluate fun test => truth (test.toFragment quoted) := by
  rw [Query.predicate_toPlan, Predicate.evaluate_map]
  exact Predicate.evaluate_normalize _ _

/-! ## Queries -/

namespace Query

variable {model : String} {config : Config} {root : Model s} {front more : List (Condition s)}
  {done : Draft s} {plan plan' : Plan} {query : Json} {fields added : List (String × Json)}

/-- A query of more conditions is compiled by compiling the front of it and building on. -/
theorem Compiles.builds_append (h : Compiles s model query config root (front ++ more) done plan') :
    ∃ ts us e e', (Condition.buildWhere front (.root root.table)).Runs (Draft.new root config) ()
        (e.withPredicate (.all ts)) ∧
      Builds (.root root.table) (Condition.subqueriesOfEach front) (Condition.enteredByEach front)
        (Condition.advanceEach front (.root root.table))
        (fun v p => Condition.treeEach v front (.root root.table) p) (Draft.new root config) ts e ∧
      Builds (.root root.table) (Condition.subqueriesOfEach more) (Condition.enteredByEach more)
        (Condition.advanceEach more (.root root.table))
        (fun v p => Condition.treeEach v more (.root root.table) p) e us e' ∧
      done = e'.withPredicate (.all (ts ++ us)) := by
  rcases h.buildEach with ⟨trees, e', hrun, hdone⟩
  rcases Condition.runs_buildEach_append.1 hrun with ⟨ts, e, us, hfront, hmore, rfl⟩
  have hadmitted := h.admitted
  have hready := ready_withBase root config root.table [] 0
  have hbuilt := Condition.buildEach_builds front
    (fun c hc => hadmitted c (List.mem_append_left _ hc)) hready hfront
  have hbuilt' := Condition.buildEach_builds more
    (fun c hc => hadmitted c (List.mem_append_right _ hc)) (hready.grow hbuilt.grows) hmore
  -- building into the WHERE clause is building each and putting the trees into it
  refine ⟨ts, us, e, e', Condition.buildWhere_runs_iff.2 ⟨ts, e, hfront, ?_⟩, hbuilt, hbuilt', hdone⟩
  exact congrArg e.withPredicate (Predicate.foldl_push .and [] ts).symm

/-- If a query compiles, so does every query of its first entries. The longer plan prolongs the
shorter one, and its predicate is the conjunction of the shorter one's and of what the added entries
say. -/
theorem prolongs_of_compile (h : compile s model (.object (fields ++ added)) config = .ok plan') :
    ∃ plan, compile s model (.object fields) config = .ok plan ∧ plan.Prolongs plan' ∧
      ∃ root front more done,
        Compiles s model (.object (fields ++ added)) config root (front ++ more) done plan' ∧
        Condition.ofFields fields root = .ok front ∧ Condition.ofFields added root = .ok more ∧
        ∀ truth : Fragment → Bool, plan'.predicate.evaluate truth =
          Connective.and.join (plan.predicate.evaluate truth)
            (allOf (Condition.meaningEach
              ⟨done.naming, fun test => truth (test.toFragment config.quoteIdentifiers)⟩ more
              (.root root.table) (Condition.advanceEach front (.root root.table) ⟨0, []⟩))) := by
  rcases compile_eq_ok_iff.1 h with ⟨root, conditions, done, hstages⟩
  rcases Condition.ofFields_append_eq_ok_iff.1 hstages.conditions_eq with
    ⟨front, more, hfront, hmore, rfl⟩
  rcases hstages.builds_append with ⟨ts, us, e, e', hrun, hbuilt, hbuilt', rfl⟩
  refine ⟨(e.withPredicate (.all ts)).finish.toPlan config.quoteIdentifiers,
    compile_eq_ok_iff.2 ⟨root, front, _, hstages.root_eq, hfront, hrun, rfl⟩, ?_,
    root, front, more, _, hstages, hfront, hmore, fun truth => ?_⟩
  · rw [hstages.plan_eq]
    exact (hbuilt'.grows.prolongs.withPredicate _ _).toPlan config.quoteIdentifiers
  · -- the added tests are read with the naming of the longer query's draft
    have htrees : us = Condition.treeEach e'.naming more (.root root.table)
        (Condition.advanceEach front (.root root.table) ⟨0, []⟩) :=
      hbuilt'.result_eq _ _ (hbuilt.progress _ (at_new root config)) e'.names_naming
    have hvalue : (Predicate.all us).evaluate
        (fun test => truth (test.toFragment config.quoteIdentifiers)) =
          allOf (Condition.meaningEach
            ⟨e'.naming, fun test => truth (test.toFragment config.quoteIdentifiers)⟩ more
            (.root root.table) (Condition.advanceEach front (.root root.table) ⟨0, []⟩)) := by
      rw [htrees, Predicate.all, evaluate_node]
      exact Condition.allOf_treeEach
        ⟨e'.naming, fun test => truth (test.toFragment config.quoteIdentifiers)⟩ more _ _
    rw [hstages.plan_eq, evaluate_predicate_toPlan, evaluate_predicate_toPlan]
    exact (Predicate.evaluate_all_append ts us).trans (congrArg _ hvalue)

/-- A relation with a document about its rows. -/
def joinedArticles : List (String × Json) :=
  [("articles=>", .object [("title=", .string "Loops"), ("author", .null)])]

/-- The same relation again, with a sub-query over it. -/
def derivedArticles : List (String × Json) :=
  [("articles()", .array [.object [("rating", .null), ("order:", .string "author.surname")],
      .object [("title=", .string "Trees")]]),
    ("order:", .string "surname")]

theorem prolongs_derivedArticles :
    ∃ plan', compile Schema.people "Person" (.object (joinedArticles ++ derivedArticles)) {} =
        .ok plan' ∧
      plan'.joins.length = 2 ∧
      ∃ plan, compile Schema.people "Person" (.object joinedArticles) {} = .ok plan ∧
        plan.Prolongs plan' := by
  have hjoins :
      (compile Schema.people "Person" (.object (joinedArticles ++ derivedArticles)) {}).toOption.map
        (fun plan => plan.joins.length) = some 2 := by
    decide +kernel
  rcases exists_of_map_toOption hjoins with ⟨plan', hplan', htwo⟩
  rcases prolongs_of_compile hplan' with ⟨plan, hplan, hprolongs, -⟩
  exact ⟨plan', hplan', htwo, plan, hplan, hprolongs⟩

end Query

end DocQuery
