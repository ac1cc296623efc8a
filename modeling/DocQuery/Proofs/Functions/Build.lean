import DocQuery.Proofs.Build.Assemble
import DocQuery.Proofs.Functions.Serve

namespace DocQuery

/-! # Building admitted conditions heeds their steps

A build of admitted conditions fails with the first fault of their steps; without a fault it serves
their functions and their sub-queries. The proof is one induction over conditions, documents and
targets, which follows the recursion of `build`; what has been built before a step leaves the draft
poised.

* `build_heeds`: a build of admitted conditions fails with the first fault of its steps, or serves
  its functions.
-/

open Build BuildStep Draft

variable {s : Schema}

namespace Condition

variable {d : Draft s} {table : TablePath} {m : Model s} {p : Progress}

/-- Columns are joined and nothing behind them can fail. -/
theorem heeds_test (h : d.Poised table m p) {columns : List (Column s)}
    (hreached : ∀ c ∈ columns, c.LeadsToColumn m) {α : Type} {next : List QualifiedColumn → Build s α}
    (hnext : ∀ (d : Draft s) qualified, Heeds (next qualified) d [] fun _ e => Serves [] [] d e) :
    Heeds (joinColumns table columns >>= next) d
      (columns.flatMap fun c => followAll c.model c.path) fun _ e => Serves [] [] d e :=
  (heeds_joinColumns h hreached).andThen fun qualified e _ hjoins =>
    (hnext e qualified).mono fun _ _ _ hserves => hjoins.serves.before hserves

theorem heeds_bindAll (d : Draft s) (values : List Operand) {α : Type} (result : List String → α) :
    Heeds (modifyGet (·.bindAll values) >>= fun params => pure (result params) : Build s α) d []
      fun _ e => Serves [] [] d e := by
  have hbind : Heeds (modifyGet (·.bindAll values) : Build s _) d [] fun _ e => Serves [] [] d e :=
    .of_modifyGet (serves_bindAll d values)
  exact hbind.andThen fun _ _ _ hserves => .of_pure hserves

/-- A sub-query heeds its steps in a draft of its own, and is then tied to its parent; then the
conditions on its row heed theirs. -/
theorem derivedJoin_heeds {column : Column s} {relation : Relation s}
    {subquery conditions : List (Condition s)} (h : d.Poised table relation.owner p)
    (hresolved : relation.Resolved) (direct : relation.hops? = none)
    (hadmitted : ∀ c ∈ subquery, c.Admitted relation.target)
    (hsubquery : ∀ {d : Draft s} {p : Progress},
      d.Poised (.root relation.target.table) relation.target p →
      Heeds (buildEach subquery (.root relation.target.table)) d
        (stepsOfEach subquery (.root relation.target.table) p)
        fun _ e => Serves (callsOfEach subquery) (subqueriesOfEach subquery) d e)
    (hconditions : ∀ {path : TablePath} {d : Draft s} {p : Progress},
      d.Poised path relation.target p → Heeds (buildEach conditions path) d
        (stepsOfEach conditions path p)
        fun _ e => Serves (callsOfEach conditions) (subqueriesOfEach conditions) d e) :
    Heeds (build (.derivedJoin column relation subquery conditions) table) d
      (steps (.derivedJoin column relation subquery conditions) table p)
      fun _ e => Serves (callsOfEach conditions)
        (subqueries (.derivedJoin column relation subquery conditions)) d e := by
  have hinside := h.nested (derivedPath d table relation.name) relation.target
  have hpath := h.progress.derivedPath_eq table relation.name
  -- the conditions on the row are built where the sub-query has been tied to its parent
  have hafter : ∀ {a : String} {trees : List (Predicate Test)} {built done : Draft s},
      d.aliasAt? table = some a →
      (buildEach subquery (.root relation.target.table)).Runs
        (d.nestedDraft (derivedPath d table relation.name) relation.target) trees built →
      (correlate relation a).Runs (built.pushWhere (.all trees)) () done →
      Serves (s := s) [] [(relation, subquery)] d
          (d.embed (derivedPath d table relation.name) relation.target done) ∧
        (d.embed (derivedPath d table relation.name) relation.target done).Poised
          (derivedPath d table relation.name) relation.target
          (p.claim (advanceEach subquery (.root relation.target.table) p.nested)
            (derivedPath d table relation.name)) := by
    intro a trees built done ha hsub hcorrelate
    have hbuilt := buildEach_builds subquery hadmitted hinside.ready hsub
    have hcorrelates : Correlates a relation (built.pushWhere (.all trees)) done :=
      ((hbuilt.tidy hinside.ready.tidy).withPredicate _).runs_correlate hcorrelate
    have hgrown := h.grow (builds_embed h.ready hresolved ha hbuilt hcorrelates)
    rw [← hpath] at hgrown
    exact ⟨serves_embed ((hsubquery hinside).runs hsub).2 hcorrelates,
      h.ready.embed relation.name relation.target done, hgrown.progress, hgrown.passed⟩
  simp only [steps]
  rw [← hpath, ← List.singleton_append]
  constructor
  · intro t e hrun
    rcases (runs_derivedJoin_iff h.ready).1 hrun with
      ⟨a, trees, built, done, trees', ha, hsub, hcorrelate, hnested, rfl⟩
    rcases hafter ha hsub hcorrelate with ⟨hembed, hpoised⟩
    rcases (hconditions hpoised).runs hnested with ⟨hnone, hserves⟩
    rw [firstFault_append, firstFault_append, ((hsubquery hinside).runs hsub).1,
      ((heeds_correlate _ direct).runs hcorrelate).1, hnone]
    exact ⟨rfl, hembed.trans hserves⟩
  · intro e hfail
    rw [firstFault_append, firstFault_append]
    rcases fails_derivedJoin h.ready hfail with hsub | ⟨a, trees, built, ha, hsub, hrest⟩
    · rw [(hsubquery hinside).fails hsub, Option.some_or]
    · rw [((hsubquery hinside).runs hsub).1, Option.none_or]
      rcases hrest with hcorrelate | ⟨done, hcorrelate, hnested⟩
      · rw [(heeds_correlate _ direct).fails hcorrelate, Option.some_or]
      · rw [((heeds_correlate _ direct).runs hcorrelate).1, Option.none_or]
        exact (hconditions (hafter ha hsub hcorrelate).2).fails hnested

/-- A column is selected once its table is joined. -/
theorem heeds_selectColumn (h : d.Poised table m p) {c : Column s} (hc : c.LeadsToColumn m) :
    Heeds (do
        let path ← joinColumn table c
        let qualified ← modifyGet (·.columnAt path (c.name.getD ""))
        modify (·.addSelect (.column qualified))
        return (none : Option (Predicate Test))) d (followAll c.model c.path)
      fun _ e => Serves [] [] d e := by
  rcases hc with ⟨hmodel, n, name, hopen, _⟩
  refine (h.heeds_joinColumn hmodel hopen).andThen fun path d₁ _ hway => ?_
  rcases hway with ⟨rfl, hfollow⟩
  have hpoised := h.joins hfollow.joins
  have hcolumn := heeds_columnAt hpoised.ready.tidy hfollow.mem (c.name.getD "")
  -- the path may be refused, but a joined column can always be entered
  refine hcolumn.andThen fun qualified e _ he => ?_
  subst he
  have hselect : Heeds (modify (·.addSelect (.column qualified)) : Build s _) e []
      fun _ e => Serves [] [] d e :=
    .of_modify (hfollow.joins.serves.before (serves_addSelect e _))
  exact hselect.andThen fun _ _ _ hserves => .of_pure hserves

mutual

/-- An admitted condition heeds its steps. -/
theorem build_heeds (c : Condition s) {m : Model s} {table : TablePath} {d : Draft s} {p : Progress}
    (hc : c.Admitted m) (h : d.Poised table m p) :
    Heeds (build c table) d (c.steps table p) fun _ e => Serves c.calls c.subqueries d e := by
  cases c with
  | comparison rule template columns values =>
    cases hc with
    | comparison reached =>
      rw [build]
      exact heeds_test h reached fun d qualified => heeds_bindAll d values _
  | presence rule template columns =>
    cases hc with
    | presence reached =>
      rw [build]
      exact heeds_test h reached fun d qualified => .of_pure (.refl d)
  | membership rule template columns values =>
    cases hc with
    | membership reached =>
      rw [build]
      refine heeds_test h reached fun d qualified => ?_
      have hbind : Heeds (modifyGet (·.bind values) : Build s _) d [] fun _ e => Serves [] [] d e :=
        .of_modifyGet (serves_of_same rfl rfl rfl)
      exact hbind.andThen fun _ _ _ hserves => .of_pure hserves
  | range rule template columns low high =>
    cases hc with
    | range reached =>
      rw [build]
      exact heeds_test h reached fun d qualified => heeds_bindAll d [low, high] _
  | overlap rule template columns span =>
    cases hc with
    | overlap reached =>
      rw [build]
      exact heeds_test h reached fun d qualified =>
        heeds_bindAll d [.instant span.start, .instant span.stop] _
  | relationJoin targets =>
    cases hc with
    | relationJoin reached nested =>
      rw [build]
      exact (buildJoins_heeds targets reached nested h).andThen fun _ _ _ hserves => .of_pure hserves
  | derivedJoin column relation subquery conditions =>
    cases hc with
    | derivedJoin own direct reached rows nested =>
      rcases reached.resolved_owner own with ⟨hresolved, rfl⟩
      exact derivedJoin_heeds h hresolved direct rows
        (fun hpoised => buildEach_heeds subquery rows hpoised)
        (fun hpoised => buildEach_heeds conditions nested hpoised)
  | select targets =>
    cases hc with
    | select reached nested =>
      rw [build]
      exact (buildSelects_heeds targets reached nested h).andThen fun _ _ _ hserves => .of_pure hserves
  -- a function is one step, that the root allows, and then those of the columns that it joins
  | order entries =>
    cases hc with
    | order reached =>
      rw [build]
      exact (heeds_atRoot (heeds_orderBy h reached)).andThen fun _ _ _ hserves =>
        .of_pure ⟨hserves.limit, hserves.offset, hserves.derived⟩
  | limit n =>
    rw [build]
    have hlimit : Heeds (modify (·.setLimit n) : Build s Unit) d []
        fun _ e => Serves [.limit n] [] d e := .of_modify ⟨rfl, rfl, [], (List.append_nil _).symm, .nil⟩
    exact (heeds_atRoot hlimit).andThen fun _ _ _ hserves => .of_pure hserves
  | offset n =>
    rw [build]
    have hoffset : Heeds (modify (·.setOffset n) : Build s Unit) d []
        fun _ e => Serves [.offset n] [] d e := .of_modify ⟨rfl, rfl, [], (List.append_nil _).symm, .nil⟩
    exact (heeds_atRoot hoffset).andThen fun _ _ _ hserves => .of_pure hserves

theorem buildEach_heeds (conditions : List (Condition s)) {m : Model s} {table : TablePath}
    {d : Draft s} {p : Progress} (hc : ∀ c ∈ conditions, c.Admitted m) (h : d.Poised table m p) :
    Heeds (buildEach conditions table) d (stepsOfEach conditions table p)
      fun _ e => Serves (callsOfEach conditions) (subqueriesOfEach conditions) d e := by
  cases conditions with
  | nil =>
    rw [buildEach]
    exact .of_pure (.refl d)
  | cons condition conditions =>
    rcases admitted_of_cons hc with ⟨hcondition, hconditions⟩
    rw [buildEach, stepsOfEach]
    -- a fault in the first condition is the fault of all; without one the others go on from there
    refine (build_heeds condition hcondition h).bind fun _ e hrun hserves => ?_
    have hpoised := h.grow (build_builds condition hcondition h.ready hrun)
    exact (buildEach_heeds conditions hconditions hpoised).andThen fun _ _ _ hrest =>
      .of_pure (hserves.trans hrest)

theorem buildDocuments_heeds (documents : List (List (Condition s))) {m : Model s}
    {table : TablePath} {d : Draft s} {p : Progress}
    (hc : ∀ document ∈ documents, ∀ c ∈ document, c.Admitted m) (h : d.Poised table m p) :
    Heeds (buildDocuments documents table) d (stepsOfDocuments documents table p)
      fun _ e => Serves (callsOfDocuments documents) (subqueriesOfDocuments documents) d e := by
  cases documents with
  | nil =>
    rw [buildDocuments]
    exact .of_pure (.refl d)
  | cons document documents =>
    rcases admitted_of_document hc with ⟨hdocument, hdocuments⟩
    rw [buildDocuments, stepsOfDocuments]
    refine (buildEach_heeds document hdocument h).bind fun _ e hrun hserves => ?_
    have hpoised := h.grow (buildEach_builds document hdocument h.ready hrun)
    exact (buildDocuments_heeds documents hdocuments hpoised).andThen fun _ _ _ hrest =>
      .of_pure (hserves.trans hrest)

theorem buildJoins_heeds {within : Connective} (targets : List (Target s (List (List (Condition s)))))
    {m : Model s} {table : TablePath} {d : Draft s} {p : Progress}
    (reached : ∀ t ∈ targets, ∃ target, t.column.LeadsToRows m target)
    (nested : ∀ t ∈ targets, ∀ target, t.column.LeadsToRows m target →
      ∀ document ∈ t.nested, ∀ c ∈ document, c.Admitted target)
    (h : d.Poised table m p) :
    Heeds (buildJoins within targets table) d (stepsOfJoins targets table p)
      fun _ e => Serves (callsOfJoins targets) (subqueriesOfJoins targets) d e := by
  cases targets with
  | nil =>
    rw [buildJoins]
    exact .of_pure (.refl d)
  | cons target targets =>
    rcases target with ⟨column, documents⟩
    have hreached : ∀ t ∈ targets, ∃ target, t.column.LeadsToRows m target :=
      fun t ht => reached t (List.mem_cons_of_mem _ ht)
    have hnested : ∀ t ∈ targets, ∀ target, t.column.LeadsToRows m target →
        ∀ document ∈ t.nested, ∀ c ∈ document, c.Admitted target :=
      fun t ht => nested t (List.mem_cons_of_mem _ ht)
    rcases reached ⟨column, documents⟩ List.mem_cons_self with ⟨n, hrows⟩
    have hdocuments := nested ⟨column, documents⟩ List.mem_cons_self n hrows
    rw [buildJoins, buildJoin, stepsOfJoins]
    -- the relation and the documents about its rows, then the targets that follow
    have hhead : Heeds (do
        let path ← joinRelation table column
        return Predicate.node within (← buildDocuments documents path)) d
        (followAll column.model column.segments ++
          stepsOfDocuments documents (table.join column.segments) p)
        fun _ e => Serves (callsOfDocuments documents) (subqueriesOfDocuments documents) d e ∧
          e.Poised table m (advanceDocuments documents (table.join column.segments) p) := by
      refine (heeds_joinRelation h hrows).bind fun path d₁ _ hway => ?_
      rcases hway with ⟨rfl, hpoised, hjoins⟩
      refine (buildDocuments_heeds documents hdocuments hpoised).andThen fun _ e hrun hserves => ?_
      have hbuilt := buildDocuments_builds documents hdocuments hpoised.ready hrun
      exact .of_pure ⟨hjoins.serves.before hserves, (h.joins hjoins).grow hbuilt⟩
    refine hhead.bind fun _ e _ hpost => ?_
    rcases hpost with ⟨hserves, hpoised⟩
    exact (buildJoins_heeds targets hreached hnested hpoised).andThen fun _ _ _ hrest =>
      .of_pure (hserves.trans hrest)

theorem buildSelect_heeds (target : Target s (List (Condition s))) {m : Model s} {table : TablePath}
    {d : Draft s} {p : Progress}
    (reached : (target.column.LeadsToColumn m ∧ target.nested = []) ∨
      target.column.isColumn = false ∧ ∃ r, target.column.LeadsToRelation m r)
    (nested : ∀ r, target.column.LeadsToRelation m r → ∀ c ∈ target.nested, c.Admitted r.target)
    (h : d.Poised table m p) :
    Heeds (buildSelect target table) d
      (if target.column.isColumn then followAll target.column.model target.column.path
        else if target.nested.isEmpty then []
        else followAll target.column.model target.column.segments
          ++ stepsOfEach target.nested (table.join target.column.segments) p)
      fun _ e => Serves (callsOfEach target.nested) (subqueriesOfEach target.nested) d e := by
  rcases target with ⟨column, conditions⟩
  simp only at reached nested ⊢
  rw [buildSelect]
  rcases reached with ⟨hcolumn, rfl⟩ | ⟨hcolumn, r, hr⟩
  · -- a column: its table is joined, and nothing is built inside
    simp only [hcolumn.isColumn_eq, if_true]
    exact heeds_selectColumn h hcolumn
  · -- a relation, which is joined only if there are conditions on its rows
    simp only [hcolumn, Bool.false_eq_true, if_false]
    refine (heeds_includeRelation d table hr).quietly fun _ d₁ hinclude hloads => ?_
    have hpoised := h.grow (builds_includeRelation table hinclude)
    split
    · rename_i hempty
      have hnil : conditions = [] := List.isEmpty_iff.1 hempty
      subst hnil
      exact .of_pure hloads
    · have hrows : column.LeadsToRows m r.target := .inr ⟨r, hr, rfl⟩
      refine (heeds_joinRelation hpoised hrows).bind fun path d₂ _ hway => ?_
      rcases hway with ⟨rfl, hpoised', hjoins⟩
      exact (buildEach_heeds conditions (nested r hr) hpoised').andThen fun _ _ _ hserves =>
        .of_pure (hloads.before (hjoins.serves.before hserves))

theorem buildSelects_heeds (targets : List (Target s (List (Condition s)))) {m : Model s}
    {table : TablePath} {d : Draft s} {p : Progress}
    (reached : ∀ t ∈ targets, (t.column.LeadsToColumn m ∧ t.nested = []) ∨
      t.column.isColumn = false ∧ ∃ r, t.column.LeadsToRelation m r)
    (nested : ∀ t ∈ targets, ∀ r, t.column.LeadsToRelation m r →
      ∀ c ∈ t.nested, c.Admitted r.target)
    (h : d.Poised table m p) :
    Heeds (buildSelects targets table) d (stepsOfSelects targets table p)
      fun _ e => Serves (callsOfSelects targets) (subqueriesOfSelects targets) d e := by
  cases targets with
  | nil =>
    rw [buildSelects]
    exact .of_pure (.refl d)
  | cons target targets =>
    have hhead := reached target List.mem_cons_self
    have hinner := nested target List.mem_cons_self
    rw [buildSelects, stepsOfSelects]
    refine (buildSelect_heeds target hhead hinner h).bind fun _ e hrun hserves => ?_
    have hpoised := h.grow (buildSelect_builds target hhead hinner h.ready hrun)
    exact (buildSelects_heeds targets (fun t ht => reached t (List.mem_cons_of_mem _ ht))
      (fun t ht => nested t (List.mem_cons_of_mem _ ht)) hpoised).andThen fun _ _ _ hrest =>
        .of_pure (hserves.trans hrest)

end

end Condition

end DocQuery
