import DocQuery.Proofs.Condition.Functions
import DocQuery.Proofs.Functions.Heed

namespace DocQuery

/-! # What functions leave in a draft

`Serves calls subqueries d e` says that the draft is limited by the last of the calls, and that the
statements of the sub-queries have been embedded in it, each limited by the calls of its own
sub-query. The steps that have no documents inside heed the relations they follow and serve nothing.

* `heeds_joinColumns`: and its neighbours: which relations the parts of a condition follow, and
  where they fail.
-/

open Build BuildStep

variable {s : Schema}

namespace Draft

open Condition

variable {d e f : Draft s} {calls calls' : List (Condition s)}
  {subqueries subqueries' : List (Relation s × List (Condition s))}

/-- What the calls and the sub-queries leave in the draft. -/
structure Serves (calls : List (Condition s)) (subqueries : List (Relation s × List (Condition s)))
    (d e : Draft s) : Prop where
  limit : e.limit = (lastLimit calls).or d.limit
  offset : e.offset = (lastOffset calls).or d.offset
  derived : ∃ statements, e.derived = d.derived ++ statements ∧
    List.Forall₂ (fun subquery => Pages subquery.2) subqueries statements

/-- Nothing is limited or embedded. -/
theorem serves_of_same (hlimit : e.limit = d.limit) (hoffset : e.offset = d.offset)
    (hderived : e.derived = d.derived) : Serves [] [] d e where
  limit := hlimit
  offset := hoffset
  derived := ⟨[], by rw [hderived, List.append_nil], .nil⟩

theorem Serves.refl (d : Draft s) : Serves [] [] d d := serves_of_same rfl rfl rfl

theorem Serves.trans (h : Serves calls subqueries d e) (h' : Serves calls' subqueries' e f) :
    Serves (calls ++ calls') (subqueries ++ subqueries') d f where
  limit := by
    rw [h'.limit, h.limit, ← Option.or_assoc]
    exact congrArg (·.or d.limit) (lastOf_append limit? calls calls').symm
  offset := by
    rw [h'.offset, h.offset, ← Option.or_assoc]
    exact congrArg (·.or d.offset) (lastOf_append offset? calls calls').symm
  derived := by
    rcases h.derived with ⟨statements, hstatements, hpages⟩
    rcases h'.derived with ⟨statements', hstatements', hpages'⟩
    exact ⟨statements ++ statements', by rw [hstatements', hstatements, List.append_assoc],
      List.rel_append hpages hpages'⟩

/-- What serves nothing comes first. -/
theorem Serves.before (h : Serves [] [] d e) (h' : Serves calls subqueries e f) :
    Serves calls subqueries d f := h.trans h'

/-- What serves nothing comes last. -/
theorem Serves.after (h : Serves calls subqueries d e) (h' : Serves [] [] e f) :
    Serves calls subqueries d f := by
  have hboth := h.trans h'
  rwa [List.append_nil, List.append_nil] at hboth

/-- Joining limits nothing. -/
theorem Joins.serves (h : Joins d e) : Serves [] [] d e := by
  refine serves_of_same ?_ ?_ h.quiet.derived
  · rw [h.eq_with]
  · rw [h.eq_with]

/-- Neither does binding values. -/
theorem serves_bindAll (d : Draft s) (values : List Operand) : Serves [] [] d (d.bindAll values).2 := by
  induction values generalizing d with
  | nil => exact .refl d
  | cons value values ih =>
    have hfirst : Serves [] [] d (d.bind value).2 := serves_of_same rfl rfl rfl
    exact hfirst.before (ih (d.bind value).2)

/-- Neither does selecting. -/
theorem serves_addSelect (d : Draft s) (item : SelectItem) : Serves [] [] d (d.addSelect item) := by
  unfold addSelect
  dsimp only
  split
  · exact .refl d
  · exact serves_of_same rfl rfl rfl

/-- Neither does asking for relations. -/
theorem serves_addInclude (d : Draft s) (path : TablePath) : Serves [] [] d (d.addInclude path) := by
  unfold addInclude
  split
  · exact .refl d
  · exact serves_of_same rfl rfl rfl

/-- Neither does ordering. -/
theorem serves_addOrder {path : TablePath} {a : String} (ha : d.aliasAt? path = some a) (name : String)
    (direction : Direction) : Serves [] [] d (d.addOrder path name direction) := by
  unfold addOrder
  simp only [columnAt, aliasOf_of_some ha]
  split
  · exact serves_of_same rfl rfl rfl
  · exact (serves_addSelect d _).after (serves_of_same rfl rfl rfl)

/-- Tying a sub-query to its parent limits nothing. -/
theorem Correlates.serves {a : String} {relation : Relation s} (h : Correlates a relation d e) :
    Serves [] [] d e := by
  have hderived := h.quiet.derived
  cases h with
  | hasMany named => exact serves_of_same rfl rfl hderived
  | belongsTo named => exact serves_of_same rfl rfl hderived
  | manyToMany named =>
    refine serves_of_same ?_ ?_ hderived
    · rw [aliasOf_eq_with named]
      rfl
    · rw [aliasOf_eq_with named]
      rfl

/-- A statement that is drafted from nothing is limited by its own calls. -/
theorem Serves.pages {conditions : List (Condition s)}
    (h : Serves (callsOfEach conditions) (subqueriesOfEach conditions) d e) (hlimit : d.limit = none)
    (hoffset : d.offset = none) (hderived : d.derived = []) : Pages conditions e.finish := by
  refine .intro ?_ ?_ ?_
  · rw [← Option.or_none (o := lastLimit _), ← hlimit]
    exact h.limit
  · rw [← Option.or_none (o := lastOffset _), ← hoffset]
    exact h.offset
  · rcases h.derived with ⟨statements, hstatements, hpages⟩
    rw [hderived, List.nil_append] at hstatements
    rw [show e.finish.derived = statements from hstatements]
    exact hpages

/-- Embedding adds one statement, that of the sub-query. -/
theorem derived_embed (d : Draft s) (place : TablePath) (model : Model s) (done : Draft s) :
    (d.embed place model done).derived = d.derived ++ [done.finish] :=
  derived_addJoin _ _

/-- The statement of a sub-query is embedded. -/
theorem serves_embed {built done : Draft s} {place : TablePath} {a : String} {relation : Relation s}
    {subquery : List (Condition s)} {trees : List (Predicate Test)}
    (h : Serves (callsOfEach subquery) (subqueriesOfEach subquery) (d.nestedDraft place relation.target)
      built) (hcorrelates : Correlates a relation (built.pushWhere (.all trees)) done) :
    Serves [] [(relation, subquery)] d (d.embed place relation.target done) where
  limit := rfl
  offset := rfl
  derived := by
    have hwhere : Serves (s := s) [] [] built (built.pushWhere (.all trees)) :=
      serves_of_same rfl rfl rfl
    have hpages := (h.after (hwhere.before hcorrelates.serves)).pages rfl rfl rfl
    exact ⟨[done.finish], derived_embed d place _ done, .cons hpages .nil⟩

end Draft

namespace Condition

open Draft

variable {d e : Draft s} {table : TablePath} {m n : Model s} {p : Progress}

/-! ## Columns -/

/-- A column of a joined table is qualified without a change of the draft. -/
theorem heeds_columnAt (h : d.Tidy) {path : TablePath} (hmem : path ∈ d.joined) (name : String) :
    Heeds (modifyGet (·.columnAt path name) : Build s _) d [] fun _ e => e = d := by
  rcases h.columnAt_joined hmem name with ⟨_, _, hqualified⟩
  exact .of_modifyGet (by rw [hqualified])

/-- Joining columns follows the relations on their paths. -/
theorem heeds_joinColumns (h : d.Poised table m p) {columns : List (Column s)}
    (hreached : ∀ c ∈ columns, c.LeadsToColumn m) :
    Heeds (joinColumns table columns) d (columns.flatMap fun c => followAll c.model c.path)
      fun _ e => Joins d e := by
  have hsteps : Heeds (joinColumns table columns) d
      (columns.flatMap fun c => followAll c.model c.path) fun _ _ => True := by
    induction columns generalizing d with
    | nil => exact .of_pure trivial
    | cons c columns ih =>
      rcases hreached c List.mem_cons_self with ⟨hmodel, n, name, hopen, _⟩
      rw [joinColumns, List.flatMap_cons]
      refine (h.heeds_joinColumn hmodel hopen).bind fun path d₁ _ hway => ?_
      rcases hway with ⟨rfl, hfollow⟩
      have hpoised := h.joins hfollow.joins
      have hcolumn := heeds_columnAt hpoised.ready.tidy hfollow.mem (c.name.getD "")
      refine hcolumn.quietly fun _ e _ he => ?_
      subst he
      exact (ih hpoised fun c' hc' => hreached c' (List.mem_cons_of_mem _ hc')).andThen
        fun _ _ _ _ => .of_pure trivial
  exact hsteps.mono fun _ _ hrun _ =>
    (runs_joinColumns h.ready.tidy hreached h.ready.mem h.ready.typed hrun).joins

/-- A column is followed to rows. -/
theorem heeds_joinRelation (h : d.Poised table m p) {c : Column s} (hrows : c.LeadsToRows m n) :
    Heeds (joinRelation table c) d (followAll c.model c.segments) fun reached e =>
      reached = table.join c.segments ∧ e.Poised (table.join c.segments) n p ∧ Joins d e := by
  have hsteps : Heeds (joinRelation table c) d (followAll c.model c.segments) fun _ _ => True := by
    unfold joinRelation
    rcases hrows with ⟨⟨hmodel, hpath, hname⟩, rfl⟩ | ⟨r, hr, rfl⟩
    · -- the column stands for the model itself: nothing is joined
      have hopen : OpenPath n c.path n := hpath ▸ .here n
      have hsegments : c.segments = c.path := by
        simp [Column.segments, hname]
      rw [hsegments]
      simp only [hname]
      exact (h.heeds_joinColumn hmodel hopen).andThen fun _ _ _ _ => .of_pure trivial
    · -- the relation that the column names is joined after its path
      have hrelation := hr.relation?_eq
      rcases hr with ⟨rfl, k, name, hopen, hname, _, hfound⟩
      rcases Model.relation?_resolved hfound with ⟨hresolved, howner, rfl⟩
      have hsegments : c.segments = c.path ++ [r.name] := by
        simp [Column.segments, hname]
      have hfollows : followAll c.model c.segments = followAll c.model c.path ++ [.follow r] := by
        rw [hsegments, followAll, Model.follows_append hopen, List.map_append]
        simp only [Model.follows, hfound]
        rfl
      rw [hfollows]
      simp only [hname, hrelation]
      refine (h.heeds_joinColumn rfl hopen).bind fun path d₁ _ hway => ?_
      rcases hway with ⟨rfl, hfollow⟩
      have hpoised := h.joins hfollow.joins
      have htyped : d₁.modelAt? (table.join c.path) = some r.owner := by
        rw [howner]
        exact hfollow.typed
      exact (heeds_join hpoised.passed hpoised.ready.tidy hresolved hfollow.mem htyped).andThen
        fun _ _ _ _ => .of_pure trivial
  refine hsteps.mono fun _ e hrun _ => ?_
  rcases runs_joinRelation h.ready.tidy hrows h.ready.mem h.ready.typed hrun with ⟨rfl, hfollow⟩
  have hgrown := h.joins hfollow.joins
  exact ⟨rfl, ⟨⟨hgrown.ready.tidy, hfollow.mem, hfollow.typed⟩, hgrown.progress, hgrown.passed⟩,
    hfollow.joins⟩

/-! ## Clauses -/

/-- So does ordering by columns. -/
theorem heeds_orderBy (h : d.Poised table m p) {entries : List (Column s × Direction)}
    (hreached : ∀ e ∈ entries, e.1.LeadsToColumn m) :
    Heeds (orderBy table entries) d (entries.flatMap fun e => followAll e.1.model e.1.path)
      fun _ e => Serves [] [] d e := by
  -- Entry by entry, as each joins its column before the next is looked at.
  induction entries generalizing d with
  | nil => exact .of_pure (.refl d)
  | cons entry entries ih =>
    rcases entry with ⟨c, direction⟩
    rcases hreached (c, direction) List.mem_cons_self with ⟨hmodel, n, name, hopen, _⟩
    rw [orderBy, List.flatMap_cons]
    refine (h.heeds_joinColumn hmodel hopen).bind fun path d₁ _ hway => ?_
    rcases hway with ⟨rfl, hfollow⟩
    have hpoised := h.joins hfollow.joins
    rcases hpoised.ready.tidy.named _ hfollow.mem with ⟨a, ha⟩
    have horder : Builds table [] [] id (fun _ _ => ()) d₁ ()
        (d₁.addOrder (table.join c.path) (c.name.getD "") direction) :=
      .of_sameTables (.clause (.order hfollow.mem ha _ _)) (sameTables_addOrder ha _ _)
        (lastParam_addOrder ha _ _) ()
    have hserves := hfollow.joins.serves.before (serves_addOrder ha (c.name.getD "") direction)
    exact .modifyThen ((ih (hpoised.grow horder) fun e he => hreached e (List.mem_cons_of_mem _ he)).mono
      fun _ _ _ hrest => hserves.before hrest)

/-- Asking for relations follows none. -/
theorem heeds_includeHops (d : Draft s) (hops : List (Hop s)) :
    Heeds (includeHops table hops) d [] fun _ e => Serves [] [] d e := by
  induction hops generalizing d with
  | nil => exact .of_pure (.refl d)
  | cons hop hops ih =>
    rw [includeHops]
    exact .modifyThen ((ih (d.addInclude (table.join hop.path))).mono fun _ _ _ hrest =>
      (serves_addInclude d _).before hrest)

/-- A relation that exists can be loaded. -/
theorem heeds_includeRelation (d : Draft s) (table : TablePath) {c : Column s} {r : Relation s}
    (hr : c.LeadsToRelation m r) :
    Heeds (includeRelation table c) d [] fun _ e => Serves [] [] d e := by
  rcases hr with ⟨rfl, k, name, hopen, _⟩
  have hnone := Column.hopsFrom_of_openPath hopen []
  unfold includeRelation Column.hops
  generalize Column.hopsFrom c.model [] c.path = hops at hnone ⊢
  rcases hops with ⟨hops, error⟩
  cases hnone
  exact (heeds_includeHops d hops).andThen fun _ e _ hserves =>
    .of_modify (hserves.after (serves_addInclude e _))

/-- A function is called at a base table, or it is at fault. -/
theorem heeds_atRoot {function : FunctionName} {step : Build s Unit} {steps : List (BuildStep s)}
    {post : Unit → Draft s → Prop} (h : Heeds step d steps post) :
    Heeds (atRoot function table step) d (.call function table :: steps) post := by
  unfold atRoot
  cases hroot : table.isRoot with
  | true =>
    refine ⟨fun hrun => ?_, fun hfail => ?_⟩
    · rw [firstFault_cons, fault?, hroot]
      exact h.runs hrun
    · rw [firstFault_cons, fault?, hroot]
      exact h.fails hfail
  | false =>
    refine ⟨fun hrun => absurd hrun runs_throw, fun hfail => ?_⟩
    rw [firstFault_cons, fault?, hroot]
    exact congrArg some (fails_throw.1 hfail)

/-- A sub-query over a relation without hops is tied to its parent, if the relation can be joined. -/
theorem heeds_correlate (d : Draft s) {r : Relation s} {a : String} (direct : r.hops? = none) :
    Heeds (correlate r a) d [.follow r] fun _ _ => True := by
  cases r with
  | through name owner definition first second => cases direct
  | direct name owner definition link target =>
    refine ⟨fun hrun => ?_, fun hfail => ?_⟩
    · cases link with
      | hasMany | belongsTo | manyToMany => exact ⟨rfl, trivial⟩
      | unknown kind =>
        rcases runs_correlate_iff.1 hrun with ⟨_, _, htest, _⟩
        simp only [correlation, runs_bind, runs_throw, and_false, exists_false] at htest
    · rcases unknown_of_fails_correlate hfail with ⟨kind, rfl, rfl⟩
      rfl

end Condition

end DocQuery
