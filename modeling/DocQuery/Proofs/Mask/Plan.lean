import DocQuery.Proofs.Build.Where
import DocQuery.Proofs.Document.Access
import DocQuery.Proofs.Mask.Build

namespace DocQuery

/-! # Values stay out of the text

Queries that differ in their values only have the same plan but for the values bound: both have the
plan of the masked query once their plans are masked, and a masked plan has the text of the plan.

* `toPlan_masked`: the plan of a masked statement is the masked plan, with the same text.
* `compile_masked`: the masked query compiles to the masked plan.
* `compile_alike`: queries that differ in their values only have one text.
-/

/-- The plan without the content of what it binds. -/
def Plan.masked (p : Plan) : Plan := { p with bindings := p.bindings.map Binding.masked }

namespace Statement

mutual

/-- A masked statement is rendered as the statement is. -/
theorem toPlan_masked (quoted : Bool) : ∀ statement : Statement,
    statement.masked.toPlan quoted = (statement.toPlan quoted).masked
  | ⟨model, baseTable, baseAlias, select, joins, predicate, bindings, order, limit, offset,
      includes⟩ => by
    rw [masked, toPlan, toPlan, joinTexts_masked quoted joins]
    rfl

/-- The text of joins does not show what is bound in them. -/
theorem joinTexts_masked (quoted : Bool) : ∀ joins : List (Join Statement),
    joinTexts quoted (maskedJoins joins) = joinTexts quoted joins
  | [] => by rw [maskedJoins]
  | join :: joins => by
    rw [maskedJoins, joinTexts, joinTexts, joinText_masked quoted join, joinTexts_masked quoted joins]

theorem joinText_masked (quoted : Bool) : ∀ join : Join Statement,
    joinText quoted (maskedJoin join) = joinText quoted join
  | .table table tableAlias left key => by rw [maskedJoin]
  | .derived tableAlias statement => by
    rw [maskedJoin, joinText, joinText, toPlan_masked quoted statement]
    rfl
  | .derivedText tableAlias sql => by rw [maskedJoin]

end

end Statement

namespace Query

variable {s : Schema} {model : String} {query query' : Json} {config : Config} {plan plan' : Plan}

/-- A masked query has the masked plan. -/
theorem compile_masked (h : compile s model query config = .ok plan) :
    compile s model query.masked config = .ok plan.masked := by
  rcases compile_eq_ok_iff.1 h with ⟨root, conditions, done, hstages⟩
  have hconditions := Condition.ofDocument_masked hstages.conditions_eq
  have hrun := Condition.buildWhere_masks conditions _ _ _ _ hstages.run
  refine compile_eq_ok_iff.2 ⟨root, _, done.masked, hstages.root_eq, hconditions, hrun, ?_⟩
  rw [hstages.plan_eq, Draft.finish_masked, Statement.toPlan_masked]

/-- Two queries whose values differ in content only, but not under functions, have the same plan and
the same text, with the same parameters. Only what the parameters are bound to may differ. -/
theorem compile_alike (halike : query.Alike query') (h : compile s model query config = .ok plan)
    (h' : compile s model query' config = .ok plan') :
    plan' = { plan with bindings := plan'.bindings } ∧ plan'.toSql = plan.toSql ∧
      plan'.bindings.map Prod.fst = plan.bindings.map Prod.fst := by
  have hmasked : plan'.masked = plan.masked := by
    have hquery := compile_masked h
    rw [halike.masked_eq, compile_masked h'] at hquery
    exact Except.ok.inj hquery
  have hplan : plan' = { plan with bindings := plan'.bindings } :=
    congrArg (fun p : Plan => { p with bindings := plan'.bindings }) hmasked
  refine ⟨hplan, ?_, ?_⟩
  · rw [hplan]
    rfl
  · have hbindings := congrArg (fun p => p.bindings.map Prod.fst) hmasked
    simpa [Plan.masked, Binding.masked, Function.comp_def] using hbindings

/-- People by the rating of an article that is picked by its title. -/
def ratedAbove (title : String) (rating : Int) : Json :=
  .object
    [("articles()", .array [.object [("title=", .string title), ("limit:", .number (.int 1))],
      .object [("rating>", .number (.int rating))]])]

theorem ratedAbove_alike (title title' : String) (rating rating' : Int) :
    (ratedAbove title rating).Alike (ratedAbove title' rating') := by
  have hjoin : Key.callsFunction "articles()" = false := by decide +kernel
  have htitle : Key.callsFunction "title=" = false := by decide +kernel
  have hrating : Key.callsFunction "rating>" = false := by decide +kernel
  refine .object (.alike hjoin (.array (.cons (.object ?_) (.cons (.object ?_) .nil))) .nil)
  · exact .alike htitle (.string title title') (.same .nil)
  · exact .alike hrating (.number _ _) .nil

theorem compile_ratedAbove :
    ∃ plan plan', compile Schema.people "Person" (ratedAbove "Loops" 3) {} = .ok plan ∧
      compile Schema.people "Person" (ratedAbove "' OR TRUE --" (-5)) {} = .ok plan' ∧
      plan' = { plan with bindings := plan'.bindings } ∧ plan'.toSql = plan.toSql ∧
      plan'.bindings.map Prod.fst = plan.bindings.map Prod.fst ∧
      plan.bindings.map Prod.fst = ["p1", "p2"] := by
  have hnames : (compile Schema.people "Person" (ratedAbove "Loops" 3) {}).toOption.map
      (fun plan => plan.bindings.map Prod.fst) = some ["p1", "p2"] := by
    decide +kernel
  have hnames' : (compile Schema.people "Person" (ratedAbove "' OR TRUE --" (-5)) {}).toOption.map
      (fun plan => plan.bindings.map Prod.fst) = some ["p1", "p2"] := by
    decide +kernel
  rcases exists_of_map_toOption hnames with ⟨plan, hplan, htwo⟩
  rcases exists_of_map_toOption hnames' with ⟨plan', hplan', _⟩
  rcases compile_alike (ratedAbove_alike _ _ _ _) hplan hplan' with ⟨hsame, htext, hbindings⟩
  exact ⟨plan, plan', hplan, hplan', hsame, htext, hbindings, htwo⟩

end Query

end DocQuery
