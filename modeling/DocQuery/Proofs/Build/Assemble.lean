import DocQuery.Proofs.Build.Refusal

namespace DocQuery

/-! # Assembling parsed queries

Building the conditions of a parsed query fails for two reasons only: a function of the whole query
stands below its root, or a relation that the conditions follow, or one of the hops inside it, is of
a kind that cannot be joined. The proof is one induction over conditions, documents and targets,
which follows the recursion of `build`; what has been built before a failure leaves the draft ready.

* `build_fails`: a build of admitted conditions fails only by a refused relation or a misplaced
  function.
* `assemble_of_parse`: a parsed query is assembled, or refused with one of the two errors.
-/

open Build Draft

variable {s : Schema}

namespace Condition

variable {d : Draft s} {table : TablePath} {m : Model s} {e : Error}

theorem admitted_of_document {documents : List (List (Condition s))} {document : List (Condition s)}
    (h : ∀ other ∈ document :: documents, ∀ c ∈ other, c.Admitted m) :
    (∀ c ∈ document, c.Admitted m) ∧ ∀ other ∈ documents, ∀ c ∈ other, c.Admitted m :=
  ⟨h document List.mem_cons_self, fun other hother => h other (List.mem_cons_of_mem _ hother)⟩

mutual

/-- An admitted condition is refused for its functions and for the relations that it follows. -/
theorem build_fails (c : Condition s) {m : Model s} {table : TablePath} {d : Draft s} {e : Error}
    (hc : c.Admitted m) (h : d.Ready table m) (hfail : (build c table).Fails d e) :
    Refusal c.follows e := by
  cases c with
  | comparison rule template columns values =>
    cases hc with
    | comparison reached =>
      simp only [build, fails_bind, fails_modifyGet, fails_pure, and_false, exists_false, or_false]
        at hfail
      exact fails_joinColumns h reached hfail
  | presence rule template columns =>
    cases hc with
    | presence reached =>
      simp only [build, fails_bind, fails_pure, and_false, exists_false, or_false] at hfail
      exact fails_joinColumns h reached hfail
  | membership rule template columns values =>
    cases hc with
    | membership reached =>
      simp only [build, fails_bind, fails_modifyGet, fails_pure, and_false, exists_false, or_false]
        at hfail
      exact fails_joinColumns h reached hfail
  | range rule template columns low high =>
    cases hc with
    | range reached =>
      simp only [build, fails_bind, fails_modifyGet, fails_pure, and_false, exists_false, or_false]
        at hfail
      exact fails_joinColumns h reached hfail
  | overlap rule template columns span =>
    cases hc with
    | overlap reached =>
      simp only [build, fails_bind, fails_modifyGet, fails_pure, and_false, exists_false, or_false]
        at hfail
      exact fails_joinColumns h reached hfail
  | relationJoin targets =>
    cases hc with
    | relationJoin reached nested =>
      simp only [build, fails_bind, fails_pure, and_false, exists_false, or_false] at hfail
      exact buildJoins_fails targets reached nested h hfail
  -- the sub-query, its correlation or the conditions on its row may fail
  | derivedJoin column relation subquery conditions =>
    cases hc with
    | derivedJoin own direct reached rows nested =>
      rcases reached.resolved_owner own with ⟨hresolved, rfl⟩
      have hsubReady : (d.nestedDraft (derivedPath d table relation.name) relation.target).Ready
          (.root relation.target.table) relation.target :=
        ready_withBase relation.target _ _ _ _
      rcases fails_derivedJoin h hfail with
        hsub | ⟨_, _, _, _, _, hcorrelate | ⟨done, _, hnested⟩⟩
      · exact (buildEach_fails subquery rows hsubReady hsub).mono
          (List.subset_cons_of_subset _ (List.subset_append_left _ _))
      · exact .relation List.mem_cons_self (fails_correlate hresolved direct hcorrelate)
      · have hready := h.embed relation.name relation.target done
        exact (buildEach_fails conditions nested hready hnested).mono
          (List.subset_cons_of_subset _ (List.subset_append_right _ _))
  | select targets =>
    cases hc with
    | select reached nested =>
      simp only [build, fails_bind, fails_pure, and_false, exists_false, or_false] at hfail
      exact buildSelects_fails targets reached nested h hfail
  -- functions of the whole query fail away from the root, and at the root like the columns that
  -- they join
  | order entries =>
    cases hc with
    | order reached =>
      simp only [build, fails_bind, fails_pure, and_false, exists_false, or_false] at hfail
      exact fails_atRoot (fails_orderBy h reached) hfail
  | limit n =>
    simp only [build, fails_bind, fails_pure, and_false, exists_false, or_false] at hfail
    exact fails_atRoot (fun hstep => absurd hstep fails_modify) hfail
  | offset n =>
    simp only [build, fails_bind, fails_pure, and_false, exists_false, or_false] at hfail
    exact fails_atRoot (fun hstep => absurd hstep fails_modify) hfail

theorem buildEach_fails (conditions : List (Condition s)) {m : Model s} {table : TablePath}
    {d : Draft s} {e : Error} (hc : ∀ c ∈ conditions, c.Admitted m) (h : d.Ready table m)
    (hfail : (buildEach conditions table).Fails d e) : Refusal (followsOfEach conditions) e := by
  cases conditions with
  | nil =>
    rw [buildEach] at hfail
    exact absurd hfail fails_pure
  | cons condition conditions =>
    rcases admitted_of_cons hc with ⟨hcondition, hconditions⟩
    simp only [buildEach, fails_bind, fails_pure, and_false, exists_false, or_false] at hfail
    rcases hfail with hfirst | ⟨_, d₁, hfirst, hrest⟩
    · exact (build_fails condition hcondition h hfirst).mono (List.subset_append_left _ _)
    · -- what has been built before the failure leaves the draft ready for the rest
      have hready := h.grow (build_builds condition hcondition h hfirst).grows
      exact (buildEach_fails conditions hconditions hready hrest).mono
        (List.subset_append_right _ _)

theorem buildDocuments_fails (documents : List (List (Condition s))) {m : Model s}
    {table : TablePath} {d : Draft s} {e : Error}
    (hc : ∀ document ∈ documents, ∀ c ∈ document, c.Admitted m) (h : d.Ready table m)
    (hfail : (buildDocuments documents table).Fails d e) :
    Refusal (followsOfDocuments documents) e := by
  cases documents with
  | nil =>
    rw [buildDocuments] at hfail
    exact absurd hfail fails_pure
  | cons document documents =>
    rcases admitted_of_document hc with ⟨hdocument, hdocuments⟩
    simp only [buildDocuments, fails_bind, fails_pure, and_false, exists_false, or_false] at hfail
    rcases hfail with hfirst | ⟨_, d₁, hfirst, hrest⟩
    · exact (buildEach_fails document hdocument h hfirst).mono (List.subset_append_left _ _)
    · have hready := h.grow (buildEach_builds document hdocument h hfirst).grows
      exact (buildDocuments_fails documents hdocuments hready hrest).mono
        (List.subset_append_right _ _)

theorem buildJoins_fails {within : Connective}
    (targets : List (Target s (List (List (Condition s))))) {m : Model s} {table : TablePath}
    {d : Draft s} {e : Error}
    (reached : ∀ t ∈ targets, ∃ target, t.column.LeadsToRows m target)
    (nested : ∀ t ∈ targets, ∀ target, t.column.LeadsToRows m target →
      ∀ document ∈ t.nested, ∀ c ∈ document, c.Admitted target)
    (h : d.Ready table m) (hfail : (buildJoins within targets table).Fails d e) :
    Refusal (followsOfJoins targets) e := by
  cases targets with
  | nil =>
    rw [buildJoins] at hfail
    exact absurd hfail fails_pure
  | cons target targets =>
    rcases target with ⟨column, documents⟩
    have hreached : ∀ t ∈ targets, ∃ target, t.column.LeadsToRows m target :=
      fun t ht => reached t (List.mem_cons_of_mem _ ht)
    have hnested : ∀ t ∈ targets, ∀ target, t.column.LeadsToRows m target →
        ∀ document ∈ t.nested, ∀ c ∈ document, c.Admitted target :=
      fun t ht => nested t (List.mem_cons_of_mem _ ht)
    rcases reached ⟨column, documents⟩ List.mem_cons_self with ⟨n, hrows⟩
    have hdocuments := nested ⟨column, documents⟩ List.mem_cons_self n hrows
    simp only [buildJoins, buildJoin, fails_bind, fails_pure, runs_bind, runs_pure, and_false,
      exists_false, or_false] at hfail
    rw [followsOfJoins]
    rcases hfail with (hjoin | ⟨path, d₁, hjoin, hfirst⟩) |
      ⟨_, _, ⟨path, d₁, hjoin, trees, d₂, hfirst, rfl, rfl⟩, hrest⟩
    · -- the way to the rows
      exact (fails_joinRelation h hrows hjoin).mono
        (List.subset_append_of_subset_left _ (List.subset_append_left _ _))
    · -- the documents about the rows
      rcases builds_joinRelation h hrows hjoin with ⟨rfl, hready, _⟩
      exact (buildDocuments_fails documents hdocuments hready hfirst).mono
        (List.subset_append_of_subset_left _ (List.subset_append_right _ _))
    · -- the targets that follow
      rcases builds_joinRelation h hrows hjoin with ⟨rfl, hready, hway⟩
      have hbuilt := buildDocuments_builds documents hdocuments hready hfirst
      have hready' := (h.grow hway.grows).grow hbuilt.grows
      exact (buildJoins_fails targets hreached hnested hready' hrest).mono
        (List.subset_append_right _ _)

theorem buildSelect_fails (target : Target s (List (Condition s))) {m : Model s}
    {table : TablePath} {d : Draft s} {e : Error}
    (reached : (target.column.LeadsToColumn m ∧ target.nested = []) ∨
      target.column.isColumn = false ∧ ∃ r, target.column.LeadsToRelation m r)
    (nested : ∀ r, target.column.LeadsToRelation m r → ∀ c ∈ target.nested, c.Admitted r.target)
    (h : d.Ready table m) (hfail : (buildSelect target table).Fails d e) :
    Refusal (if target.column.isColumn then target.column.model.follows target.column.path
      else if target.nested.isEmpty then []
      else target.column.model.follows target.column.segments ++ followsOfEach target.nested) e := by
  rcases target with ⟨column, conditions⟩
  simp only at reached nested ⊢
  rcases reached with ⟨hcolumn, rfl⟩ | ⟨hcolumn, r, hr⟩
  · -- a column: only the way to it can be refused
    rw [if_pos hcolumn.isColumn_eq]
    simp only [buildSelect, hcolumn.isColumn_eq, if_true, fails_bind, fails_modifyGet, fails_modify,
      fails_pure, and_false, exists_false, or_false] at hfail
    rcases hcolumn with ⟨rfl, n, name, hopen, _⟩
    exact h.fails_joinColumn rfl hopen hfail
  · -- a relation, which is followed only if there are conditions on its rows
    simp only [buildSelect, hcolumn, Bool.false_eq_true, if_false, fails_bind,
      fails_includeRelation hr, false_or] at hfail ⊢
    rcases hfail with ⟨_, d₁, hinclude, hfail⟩
    have hready := h.grow (builds_includeRelation table hinclude).grows
    split at hfail
    · exact absurd hfail fails_pure
    · rename_i hsome
      rw [if_neg hsome]
      have hrows : column.LeadsToRows m r.target := .inr ⟨r, hr, rfl⟩
      simp only [fails_bind, fails_pure, and_false, exists_false, or_false] at hfail
      rcases hfail with hjoin | ⟨path, d₂, hjoin, hconditions⟩
      · exact (fails_joinRelation hready hrows hjoin).mono (List.subset_append_left _ _)
      · rcases builds_joinRelation hready hrows hjoin with ⟨rfl, hready', _⟩
        exact (buildEach_fails conditions (nested r hr) hready' hconditions).mono
          (List.subset_append_right _ _)

theorem buildSelects_fails (targets : List (Target s (List (Condition s)))) {m : Model s}
    {table : TablePath} {d : Draft s} {e : Error}
    (reached : ∀ t ∈ targets, (t.column.LeadsToColumn m ∧ t.nested = []) ∨
      t.column.isColumn = false ∧ ∃ r, t.column.LeadsToRelation m r)
    (nested : ∀ t ∈ targets, ∀ r, t.column.LeadsToRelation m r →
      ∀ c ∈ t.nested, c.Admitted r.target)
    (h : d.Ready table m) (hfail : (buildSelects targets table).Fails d e) :
    Refusal (followsOfSelects targets) e := by
  cases targets with
  | nil =>
    rw [buildSelects] at hfail
    exact absurd hfail fails_pure
  | cons target targets =>
    have hreached := fun t ht => reached t (List.mem_cons_of_mem target ht)
    have hnested := fun t ht => nested t (List.mem_cons_of_mem target ht)
    have hhead := reached target List.mem_cons_self
    have hinner := nested target List.mem_cons_self
    simp only [buildSelects, fails_bind, fails_pure, and_false, exists_false, or_false] at hfail
    rw [followsOfSelects]
    rcases hfail with hfirst | ⟨_, d₁, hfirst, hrest⟩
    · exact (buildSelect_fails target hhead hinner h hfirst).mono (List.subset_append_left _ _)
    · have hready := h.grow (buildSelect_builds target hhead hinner h hfirst).grows
      exact (buildSelects_fails targets hreached hnested hready hrest).mono
        (List.subset_append_right _ _)

end

/-- The WHERE clause adds no way to fail. -/
theorem buildWhere_fails {conditions : List (Condition s)} (hc : ∀ c ∈ conditions, c.Admitted m)
    (h : d.Ready table m) (hfail : (buildWhere conditions table).Fails d e) :
    Refusal (followsOfEach conditions) e := by
  induction conditions generalizing d with
  | nil =>
    rw [buildWhere] at hfail
    exact absurd hfail fails_pure
  | cons condition conditions ih =>
    rcases admitted_of_cons hc with ⟨hcondition, hconditions⟩
    simp only [buildWhere, fails_bind] at hfail
    rcases hfail with hfirst | ⟨tree, d₁, hfirst, hrest⟩
    · exact (build_fails condition hcondition h hfirst).mono (List.subset_append_left _ _)
    · have hready := h.grow (build_builds condition hcondition h hfirst).grows
      refine (Refusal.mono ?_ (List.subset_append_right _ _))
      cases tree with
      | none => exact ih hconditions hready hrest
      | some tree =>
        simp only [fails_bind, fails_modify, false_or, runs_modify] at hrest
        rcases hrest with ⟨_, _, rfl, hrest⟩
        -- a test that is added to the predicate leaves the tables as they are
        have hpushed : (d₁.pushWhere tree).Ready table m :=
          ⟨hready.tidy.withPredicate _, hready.mem, hready.typed⟩
        exact ih hconditions hpushed hrest

end Condition

namespace Query

/-- Assembling the conditions of a parsed query succeeds, or it is refused: for a function below the
root of its query, or because a relation that the conditions follow has a part of a kind that cannot
be joined. -/
theorem assemble_of_parse {model : String} {query : Json} {conditions : List (Condition s)}
    (h : parse s model query = .ok conditions) (config : Config) :
    ∃ root, s.model? model = some root ∧
      ((∃ statement, assemble root conditions config = .ok statement) ∨
        ∃ e, assemble root conditions config = .error e ∧
          (e.kind = "RootOnlyFunctionMisuse" ∨
            e.kind = "UnknownSchemaRelationKind" ∧
              ∃ r ∈ Condition.followsOfEach conditions, r.Refuses e)) := by
  rcases admitted_of_parse h with ⟨root, hroot, hadmitted⟩
  refine ⟨root, hroot, ?_⟩
  have hready : (Draft.new root config).Ready (.root root.table) root :=
    ready_withBase root config root.table [] 0
  -- the run on a new draft decides which of the two it is
  rcases hrun : (Condition.buildWhere conditions (.root root.table)).runOn (Draft.new root config) with
    ⟨e | u, done⟩
  · have hassemble : assemble root conditions config = .error e := by
      have hbase : (Draft.new root config).base = .root root.table := rfl
      simp only [assemble, hbase, hrun]
    refine .inr ⟨e, hassemble, ?_⟩
    rcases Condition.buildWhere_fails hadmitted hready ⟨done, hrun⟩ with ⟨f, _⟩ | ⟨hmem, hrefuses⟩
    · exact .inl rfl
    · have hkind : e.kind = "UnknownSchemaRelationKind" := by
        rcases hrefuses with ⟨part, _, kind, _, rfl⟩
        rfl
      exact .inr ⟨hkind, _, hmem, hrefuses⟩
  · have hassemble : assemble root conditions config = .ok done.finish := by
      have hbase : (Draft.new root config).base = .root root.table := rfl
      simp only [assemble, hbase, hrun]
    exact .inl ⟨done.finish, hassemble⟩

end Query

namespace Schema

/-- People and those who follow them, in a way that no join follows; the articles of their followers
are reached over them. -/
def followers : Schema :=
  ⟨.ofList
    [("Person",
      { table := "people"
        columns := [⟨"id", ""⟩, ⟨"surname", ""⟩]
        relations := .ofList
          [("followers", { kind := .unknown "graph", target := some "Person" }),
            ("articles", .oneToMany "Article" "person_id"),
            ("responses", .twoHops "followers" "articles")] }),
    ("Article", { table := "articles", columns := [⟨"id", ""⟩, ⟨"title", ""⟩] })]⟩

end Schema

namespace Query

/-- A query over the articles of a person's followers; only the first hop to them is refused. -/
def answered : Json :=
  .object [("surname=", .string "Doe"), ("articles=>", .object [("title=", .string "Loops")]),
    ("responses.title=", .string "Trees")]

theorem assemble_answered :
    (match compile Schema.followers "Person" answered {} with
      | .error e => e.kind
      | .ok _ => "") = "UnknownSchemaRelationKind" ∧
      ∃ conditions, parse Schema.followers "Person" answered = .ok conditions ∧
        ∃ root, Schema.followers.model? "Person" = some root ∧
          ((∃ statement, assemble root conditions {} = .ok statement) ∨
            ∃ e, assemble root conditions {} = .error e ∧
              (e.kind = "RootOnlyFunctionMisuse" ∨
                e.kind = "UnknownSchemaRelationKind" ∧
                  ∃ r ∈ Condition.followsOfEach conditions, r.Refuses e)) := by
  have hlength : (parse Schema.followers "Person" answered).toOption.map List.length = some 3 := by
    decide +kernel
  rcases exists_of_map_toOption hlength with ⟨conditions, hparse, _⟩
  exact ⟨by decide +kernel, conditions, hparse, assemble_of_parse hparse {}⟩

end Query

end DocQuery
