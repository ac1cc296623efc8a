import DocQuery.Proofs.Functions.Build
import DocQuery.Proofs.Quotes.Plan

namespace DocQuery

/-! # Functions act on the root of their query

A parsed query compiles exactly if no step of its build is at fault. So functions below the base
table of their query or sub-query make it fail, and in a plan each statement is limited by the last
calls of its own query.

* `compile_heeds`: a parsed query compiles exactly if no step is at fault, and fails with the first
  fault.
* `functions_at_root_of_parse`: functions work at the root only, and the last of each decides.
-/

open Build BuildStep Draft

variable {s : Schema}

theorem Statement.limit_toPlan (quoted : Bool) (statement : Statement) :
    (statement.toPlan quoted).limit = statement.limit := by
  cases statement
  rw [toPlan]

theorem Statement.offset_toPlan (quoted : Bool) (statement : Statement) :
    (statement.toPlan quoted).offset = statement.offset := by
  cases statement
  rw [toPlan]

namespace Draft

variable {d : Draft s} {table : TablePath} {m : Model s} {p : Progress}

theorem Poised.withPredicate (h : d.Poised table m p) (tree : Predicate Test) :
    (d.withPredicate tree).Poised table m p :=
  ⟨h.ready.withPredicate tree, ⟨h.progress.lastParam, h.progress.derived⟩, h.passed⟩

theorem poised_new (root : Model s) (config : Config) :
    (Draft.new root config).Poised (.root root.table) root ⟨0, []⟩ where
  ready := ready_withBase root config root.table [] 0
  progress := Query.at_new root config
  passed := passed_withBase root config root.table [] 0

end Draft

namespace Condition

variable {d : Draft s} {table : TablePath} {m : Model s} {p : Progress}
  {conditions : List (Condition s)}

/-- The WHERE clause neither adds a fault nor limits the statement. -/
theorem buildWhere_heeds (hc : ∀ c ∈ conditions, c.Admitted m)
    (h : d.Poised table m p) :
    Heeds (buildWhere conditions table) d (stepsOfEach conditions table p)
      fun _ e => Serves (callsOfEach conditions) (subqueriesOfEach conditions) d e := by
  induction conditions generalizing d p with
  | nil =>
    rw [buildWhere]
    exact .of_pure (.refl d)
  | cons condition conditions ih =>
    rcases admitted_of_cons hc with ⟨hcondition, hconditions⟩
    rw [buildWhere, stepsOfEach]
    refine (build_heeds condition hcondition h).bind fun tree e hrun hserves => ?_
    have hpoised := h.grow (build_builds condition hcondition h.ready hrun)
    -- a condition without a tree adds nothing to the predicate
    cases tree with
    | none => exact (ih hconditions hpoised).mono fun _ _ _ hrest => hserves.trans hrest
    | some tree =>
      have hpushed : Serves (s := s) [] [] e (e.pushWhere tree) := serves_of_same rfl rfl rfl
      exact .modifyThen ((ih hconditions (hpoised.withPredicate _)).mono fun _ _ _ hrest =>
        hserves.trans (hpushed.before hrest))

end Condition

namespace Query

open Condition

variable {model : String} {query : Json} {root : Model s} {conditions : List (Condition s)}

/-- The steps of building the conditions of a query, from the start. -/
def stepsFrom (root : Model s) (conditions : List (Condition s)) : List (BuildStep s) :=
  stepsOfEach conditions (.root root.table) ⟨0, []⟩

/-- Functions are called in documents about base tables exactly if no step of the build calls one
below. -/
theorem isRootedEach_eq_stepsFrom (root : Model s) (conditions : List (Condition s)) :
    isRootedEach true conditions = (stepsFrom root conditions).all isAllowed :=
  isRootedEach_eq conditions (.root root.table) ⟨0, []⟩ (by simp [TablePath.root])

theorem assemble_eq_error_iff {config : Config} {e : Error} :
    assemble root conditions config = .error e ↔
      (buildWhere conditions (.root root.table)).Fails (Draft.new root config) e := by
  have hbase : (Draft.new root config).base = .root root.table := rfl
  simp only [assemble, hbase, Build.Fails]
  cases (buildWhere conditions (.root root.table)).runOn (Draft.new root config) with
  | mk result done =>
    cases result with
    | error e' => simp
    | ok u => simp

/-- Assembling fails with the first fault of the steps, and otherwise gives a statement that is
limited by the functions of the conditions. -/
theorem assemble_heeds (hc : ∀ c ∈ conditions, c.Admitted root) (config : Config) :
    (∃ statement, assemble root conditions config = .ok statement ∧
      firstFault (stepsFrom root conditions) = none ∧ Pages conditions statement) ∨
    ∃ e, assemble root conditions config = .error e ∧
      firstFault (stepsFrom root conditions) = some e := by
  have hheeds := buildWhere_heeds hc (poised_new root config)
  cases hassemble : assemble root conditions config with
  | ok statement =>
    rcases assemble_eq_ok_iff.1 hassemble with ⟨done, hrun, rfl⟩
    rcases hheeds.runs hrun with ⟨hnone, hserves⟩
    exact .inl ⟨_, rfl, hnone, hserves.pages rfl rfl rfl⟩
  | error e => exact .inr ⟨e, rfl, hheeds.fails (assemble_eq_error_iff.1 hassemble)⟩

/-- Compiling a parsed query fails with the first fault of the steps, or limits the plan and the
statements embedded in it by the functions of the conditions. -/
theorem compile_heeds (h : parse s model query = .ok conditions) (config : Config) :
    ∃ root, s.model? model = some root ∧
      ((∃ statement, assemble root conditions config = .ok statement ∧
          compile s model query config = .ok (statement.toPlan config.quoteIdentifiers) ∧
          firstFault (stepsFrom root conditions) = none ∧ Pages conditions statement) ∨
        ∃ e, compile s model query config = .error e ∧
          firstFault (stepsFrom root conditions) = some e) := by
  rcases admitted_of_parse h with ⟨root, hroot, hadmitted⟩
  have hrootModel := rootModel_eq_ok_iff.2 hroot
  rw [parse, hrootModel] at h
  have hcompile := compile_eq_map hrootModel h config
  refine ⟨root, hroot, ?_⟩
  rcases assemble_heeds hadmitted config with
      ⟨statement, hassemble, hnone, hpages⟩ | ⟨e, hassemble, hfault⟩
  · rw [hassemble] at hcompile
    exact .inl ⟨statement, hassemble, hcompile, hnone, hpages⟩
  · rw [hassemble] at hcompile
    exact .inr ⟨e, hcompile, hfault⟩

/-- A parsed query compiles only if its functions stand in documents about the base tables of their
queries; the plan and the statements embedded in it are then limited by the last functions of their
own queries. It fails with the first fault of the steps of its build, so a function further down
makes it fail, and is itself reported if no step before it is at fault. -/
theorem functions_at_root_of_parse (h : parse s model query = .ok conditions) (config : Config) :
    ∃ root, s.model? model = some root ∧
      (∀ plan, compile s model query config = .ok plan → isRootedEach true conditions = true ∧
        plan.limit = lastLimit (callsOfEach conditions) ∧
        plan.offset = lastOffset (callsOfEach conditions) ∧
        ∃ statement, assemble root conditions config = .ok statement ∧
          plan = statement.toPlan config.quoteIdentifiers ∧ Pages conditions statement) ∧
      (isRootedEach true conditions = false → ∃ e, compile s model query config = .error e) ∧
      isRootedEach true conditions = (stepsFrom root conditions).all isAllowed ∧
      (∀ e, compile s model query config = .error e ↔
        firstFault (stepsFrom root conditions) = some e) ∧
      ∀ before function table after,
        stepsFrom root conditions = before ++ .call function table :: after →
        table.isRoot = false → firstFault before = none →
        ∃ e, e.kind = "RootOnlyFunctionMisuse" ∧ e = .functionBelowRoot function.text table.text ∧
          compile s model query config = .error e := by
  rcases compile_heeds h config with ⟨root, hroot, hends⟩
  have hrooted := isRootedEach_eq_stepsFrom root conditions
  -- compiling ends in one of two ways, told apart by whether there is a fault
  have herror : ∀ e, compile s model query config = .error e ↔
      firstFault (stepsFrom root conditions) = some e := by
    intro e
    rcases hends with ⟨statement, _, hcompile, hnone, _⟩ | ⟨e', hcompile, hfault⟩
    · simp [hcompile, hnone]
    · simp [hcompile, hfault]
  have hfails : isRootedEach true conditions = false → ∃ e, compile s model query config = .error e := by
    intro hfalse
    rw [hrooted] at hfalse
    rcases Option.ne_none_iff_exists'.1 (firstFault_ne_none_of_not_allowed hfalse) with ⟨e, hfault⟩
    exact ⟨e, (herror e).2 hfault⟩
  refine ⟨root, hroot, fun plan hplan => ?_, hfails, hrooted, herror, ?_⟩
  · have hallowed : isRootedEach true conditions = true := by
      rw [← Bool.not_eq_false]
      intro hfalse
      rcases hfails hfalse with ⟨e, he⟩
      rw [he] at hplan
      cases hplan
    rcases hends with ⟨statement, hassemble, hcompile, _, hpages⟩ | ⟨e, hcompile, _⟩
    · rw [hcompile] at hplan
      cases hplan
      rw [Statement.limit_toPlan, Statement.offset_toPlan]
      exact ⟨hallowed, hpages.limit, hpages.offset, statement, hassemble, rfl, hpages⟩
    · rw [hcompile] at hplan
      cases hplan
  · -- a call below the root is at fault, and it is the first one
    intro before function table after hsteps hbelow hbefore
    refine ⟨_, rfl, rfl, (herror _).2 ?_⟩
    rw [hsteps, firstFault_append, hbefore, firstFault_cons, BuildStep.fault?, hbelow]
    rfl

/-- Functions where they may stand: on the query itself, below `self`, and on a sub-query. -/
def pagedPeople : Json :=
  .object
    [("limit:", .number (.int 5)), ("self=>", .object [("limit:", .number (.int 7))]),
      ("articles()", .array [.object [("limit:", .number (.int 1)), ("order:", .string "rating")],
        .object [("title=", .string "Trees")]])]

/-- A function below a relation. -/
def pagedArticles : Json :=
  .object [("surname=", .string "Doe"), ("articles=>", .object [("limit:", .number (.int 1))])]

theorem functions_at_root_pagedPeople :
    (∃ (plan : Plan) (statement : Statement), compile Schema.people "Person" pagedPeople {} = .ok plan ∧
        plan = statement.toPlan false ∧ plan.limit = some 7 ∧
        statement.derived.map Statement.limit = [some 1]) ∧
      ∃ e, compile Schema.people "Person" pagedArticles {} = .error e := by
  constructor
  · have hcalls : (parse Schema.people "Person" pagedPeople).toOption.map (fun conditions =>
        (lastLimit (callsOfEach conditions),
          (subqueriesOfEach conditions).map fun subquery => lastLimit (callsOfEach subquery.2))) =
        some (some 7, [some 1]) := by
      decide +kernel
    rcases exists_of_map_toOption hcalls with ⟨conditions, hparse, hlimits⟩
    rcases Prod.mk.inj hlimits with ⟨hlast, hsubqueries⟩
    have hcompiles : (compile Schema.people "Person" pagedPeople {}).toOption.map
        (fun plan => plan.order.length) = some 0 := by
      decide +kernel
    rcases exists_of_map_toOption hcompiles with ⟨plan, hplan, _⟩
    rcases functions_at_root_of_parse hparse {} with ⟨root, _, hpaged, _⟩
    rcases hpaged plan hplan with ⟨_, hlimit, _, statement, _, rfl, hpages⟩
    exact ⟨_, statement, hplan, rfl, hlimit.trans hlast, hpages.limits_derived.trans hsubqueries⟩
  · have hbelow : (parse Schema.people "Person" pagedArticles).toOption.map (isRootedEach true) =
        some false := by
      decide +kernel
    rcases exists_of_map_toOption hbelow with ⟨conditions, hparse, hfalse⟩
    rcases functions_at_root_of_parse hparse {} with ⟨root, _, _, hfails, _⟩
    exact hfails hfalse

end Query

end DocQuery
