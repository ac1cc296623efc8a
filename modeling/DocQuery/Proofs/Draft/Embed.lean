import DocQuery.Proofs.Build.Join
import DocQuery.Proofs.Draft.Derived

namespace DocQuery

/-! # Embedded sub-queries

How a draft opens a sub-query at a free path, and how it takes the finished one in as a derived
table.

* `Tidy.enters_embed`: embedding a finished sub-query brings in its derived table.
* `runs_correlate_single`: a key on either side is correlated by one test.
* `runs_correlate_double`: a join table is joined, and the test is about its row.
-/

open Build

variable {s : Schema}

namespace Draft

variable {d : Draft s} {place : TablePath} {model : Model s}

/-- The path of the base table of a sub-query at `place`. -/
def nestedBase (place : TablePath) (model : Model s) : TablePath :=
  place.child (.base model.table)

/-- The draft that a sub-query at `place` begins with. -/
def nestedDraft (d : Draft s) (place : TablePath) (model : Model s) : Draft s :=
  withBase model d.config (d.newAlias (nestedBase place model))
    (d.newAlias (nestedBase place model) :: d.usedAliases) d.lastParam

/-- The draft that has taken over the names of a finished sub-query. -/
def takeOver (d : Draft s) (place : TablePath) (model : Model s) (done : Draft s) : Draft s :=
  (d.giveAlias (nestedBase place model)).absorb done

/-- The draft with a finished sub-query joined at `place`. -/
def embed (d : Draft s) (place : TablePath) (model : Model s) (done : Draft s) : Draft s :=
  (((d.takeOver place model done).giveAlias place).addJoin
    (.derived ((d.takeOver place model done).newAlias place) done.finish)).markJoined place model

theorem ne_nestedBase (place : TablePath) (model : Model s) : place ≠ nestedBase place model := by
  intro heq
  have hlength := congrArg (fun p => p.steps.length) heq
  simp [nestedBase, TablePath.child] at hlength

theorem aliasAt?_takeOver (done : Draft s) (q : TablePath) :
    (d.takeOver place model done).aliasAt? q =
      if q = nestedBase place model then some (d.newAlias (nestedBase place model))
      else d.aliasAt? q :=
  aliasAt?_giveAlias d (nestedBase place model) q

theorem aliasAt?_embed (done : Draft s) (q : TablePath) :
    (d.embed place model done).aliasAt? q =
      if q = place then some ((d.takeOver place model done).newAlias place)
      else if q = nestedBase place model then some (d.newAlias (nestedBase place model))
      else d.aliasAt? q := by
  rw [← aliasAt?_takeOver done q]
  exact aliasAt?_giveAlias (d.takeOver place model done) place q

@[simp] theorem scope_embed (done : Draft s) :
    (d.embed place model done).scope =
      d.scope ++ [(d.takeOver place model done).newAlias place] := by
  rw [embed, scope_markJoined, scope_addJoin]
  rfl

/-! ## Joining the derived table -/

/-- A derived table of a relation can be joined at `place`, below a joined table. -/
structure Place (d : Draft s) (table place : TablePath) : Prop where
  joined : table ∈ d.joined
  child : ∃ name, place = table.child (.derived name)
  unjoined : place ∉ d.joined

/-- The place of a new derived table. -/
theorem place_derivedPath {table : TablePath} (htable : table ∈ d.joined) (relation : String) :
    d.Place table (derivedPath d table relation) :=
  ⟨htable, derivedPath_eq_child d table relation, derivedPath_notMem d table relation⟩

theorem Tidy.nestedBase_unnamed' (h : d.Tidy) {table : TablePath} (hplace : d.Place table place) :
    d.aliasAt? (nestedBase place model) = none := by
  rcases hplace.child with ⟨name, hname⟩
  refine h.nestedBase_unnamed ?_ hplace.unjoined
  rw [hname]
  simp [TablePath.child]

theorem Tidy.place_unnamed (h : d.Tidy) {table : TablePath} (hplace : d.Place table place) :
    d.aliasAt? place = none := by
  rcases hplace.child with ⟨name, rfl⟩
  exact h.derived_unnamed hplace.unjoined

/-- At a free place a sub-query opens in a draft of its own. -/
theorem Tidy.openNested_eq (h : d.Tidy) {table : TablePath} (hplace : d.Place table place)
    (model : Model s) :
    d.openNested model place = (d.nestedDraft place model, d.giveAlias (nestedBase place model)) := by
  rw [openNested]
  simp only [show place.child (.base model.table) = nestedBase place model from rfl,
    aliasOf_of_none (h.nestedBase_unnamed' hplace)]
  rfl

/-- At a free place the finished sub-query is embedded. -/
theorem Tidy.joinDerived_eq (h : d.Tidy) {table : TablePath} (hplace : d.Place table place)
    (model : Model s) (done : Draft s) :
    ((d.giveAlias (nestedBase place model)).absorb done).joinDerived place model
      (fun tableAlias => .derived tableAlias done.finish) = d.embed place model done := by
  have hjoined : ((d.giveAlias (nestedBase place model)).absorb done).isJoined place = false :=
    decide_eq_false hplace.unjoined
  -- the sub-query has taken an alias for its base table, not for its path
  have hnone : (d.takeOver place model done).aliasAt? place = none := by
    rw [aliasAt?_takeOver, if_neg (ne_nestedBase place model), h.place_unnamed hplace]
  rw [joinDerived, hjoined]
  simp only [show (d.giveAlias (nestedBase place model)).absorb done = d.takeOver place model done
    from rfl, aliasOf_of_none hnone]
  rfl

theorem Tidy.enters_embed (h : d.Tidy) {table : TablePath} (hplace : d.Place table place)
    (model : Model s) (done : Draft s) : d.Enters place model (d.embed place model done) where
  sameBase := rfl
  sameModel := rfl
  unjoined := hplace.unjoined
  joined := rfl
  models := rfl
  named := ⟨_, by rw [aliasAt?_embed, if_pos rfl]⟩
  keeps := by
    -- a path that had an alias is neither of the two that get one
    intro q a ha
    rw [aliasAt?_embed, if_neg (ne_of_unnamed ha (h.place_unnamed hplace)),
      if_neg (ne_of_unnamed ha (h.nestedBase_unnamed' hplace))]
    exact ha
  scope := by
    intro a ha
    rw [scope_embed]
    exact List.mem_append_left _ ha

theorem Tidy.embed (h : d.Tidy) {table : TablePath} (hplace : d.Place table place)
    (done : Draft s) : (d.embed place model done).Tidy := by
  have he := h.enters_embed hplace model done
  rcases hplace.child with ⟨name, hname⟩
  refine h.enter he ⟨table, name, .inr hname⟩ ?_ ?_ ?_
  · -- two aliases are new: that of the derived table, and that of the base inside it
    intro q a ha
    rw [aliasAt?_embed] at ha
    split at ha
    · rename_i hq
      cases ha
      refine .inr (.inl ⟨?_, .inl (he.mem_joined.2 (.inl hq))⟩)
      rw [scope_embed]
      exact List.mem_append_right _ (List.mem_singleton_self _)
    · split at ha
      · rename_i hq
        exact .inr (.inr ⟨place, model.table, hq, he.mem_joined.2 (.inl rfl)⟩)
      · exact .inl ha
  · -- the place is no relation, so nothing has to be reached or linked there
    intro parent name' heq
    rw [hname] at heq
    cases (TablePath.child_inj.1 heq).2
  · intro parent name' heq
    rw [hname] at heq
    cases (TablePath.child_inj.1 heq).2

/-! ## Correlation -/

/-- A sub-query is tied to its parent by one more test. -/
theorem runs_correlate_iff {d e : Draft s} {relation : Relation s} {parentAlias : String} {u : Unit} :
    (correlate relation parentAlias).Runs d u e ↔ ∃ test d₁,
      (correlation relation parentAlias).Runs d test d₁ ∧ e = d₁.pushWhere test := by
  simp only [correlate, runs_bind, runs_modify, eq_comm]

/-- What the correlation of a sub-query with the row of its parent's table makes of its draft. -/
inductive Correlates (parentAlias : String) : Relation s → Draft s → Draft s → Prop where
  | hasMany {e : Draft s} {a name foreignKey : String} {owner target : Model s}
      {definition : RelationDefinition} (named : e.aliasAt? e.base = some a) :
      Correlates parentAlias (.direct name owner definition (.hasMany foreignKey) target) e
        (e.pushWhere (equalColumns ⟨a, foreignKey⟩ ⟨parentAlias, owner.primaryKey⟩))
  | belongsTo {e : Draft s} {a name foreignKey : String} {owner target : Model s}
      {definition : RelationDefinition} (named : e.aliasAt? e.base = some a) :
      Correlates parentAlias (.direct name owner definition (.belongsTo foreignKey) target) e
        (e.pushWhere (equalColumns ⟨a, target.primaryKey⟩ ⟨parentAlias, foreignKey⟩))
  /-- The join table is joined once more, under the alias that its path has or is given. -/
  | manyToMany {e e' : Draft s} {a name joinTable foreignKey associationKey : String}
      {owner target : Model s} {definition : RelationDefinition}
      (named : e.aliasOf (e.base.child (.joinTable name)) = (a, e')) :
      Correlates parentAlias
        (.direct name owner definition (.manyToMany joinTable foreignKey associationKey) target) e
        ({ e'.addJoin (.table joinTable a ⟨e'.baseAlias, target.primaryKey⟩ associationKey) with
          joined := e.base.child (.joinTable name) :: e'.joined }.pushWhere
            (equalColumns ⟨a, foreignKey⟩ ⟨parentAlias, owner.primaryKey⟩))

section

variable {e done : Draft s} {a name leftKey key parentAlias : String} {owner target : Model s}
  {definition : RelationDefinition}

/-- A link without a join table equates a column of the base with one of the parent. -/
theorem runs_correlate_single {link : Link} (named : e.aliasAt? e.base = some a)
    (keys : link.keys? owner target = some (leftKey, key)) :
    (correlate (.direct name owner definition link target) parentAlias).Runs e ()
      (e.pushWhere (equalColumns ⟨a, key⟩ ⟨parentAlias, leftKey⟩)) := by
  have hcolumn : ∀ column, e.columnAt e.base column = (⟨a, column⟩, e) := fun column => by
    rw [columnAt, aliasOf_of_some named]
  -- the key is a column of the target or of the owner
  cases link with
  | hasMany | belongsTo =>
    cases keys
    refine runs_correlate_iff.2 ⟨_, e, ?_, rfl⟩
    simp only [correlation, runs_bind, runs_get, runs_modifyGet, runs_pure]
    refine ⟨_, _, ⟨rfl, rfl⟩, ?_⟩
    rw [hcolumn]
    exact ⟨_, _, ⟨rfl, rfl⟩, rfl, rfl⟩
  | manyToMany | unknown => cases keys

/-- A link over a join table joins that table to the base, and equates one of its columns with one
of the parent. -/
theorem runs_correlate_double {e' : Draft s} {joinTable foreignKey associationKey : String}
    (named : e.aliasOf (e.base.child (.joinTable name)) = (a, e')) :
    (correlate (.direct name owner definition (.manyToMany joinTable foreignKey associationKey) target)
      parentAlias).Runs e ()
        ({ e'.addJoin (.table joinTable a ⟨e'.baseAlias, target.primaryKey⟩ associationKey) with
          joined := e.base.child (.joinTable name) :: e'.joined }.pushWhere
            (equalColumns ⟨a, foreignKey⟩ ⟨parentAlias, owner.primaryKey⟩)) := by
  refine runs_correlate_iff.2 ⟨_, _, ?_, rfl⟩
  simp only [correlation, runs_bind, runs_get, runs_modifyGet, runs_modify, runs_pure]
  refine ⟨_, _, ⟨rfl, rfl⟩, ?_⟩
  rw [named]
  exact ⟨_, _, ⟨rfl, rfl⟩, _, _, ⟨rfl, rfl⟩, (), _, rfl, (), _, rfl, rfl, rfl⟩

end

theorem Tidy.runs_correlate {e done : Draft s} (h : e.Tidy) {relation : Relation s}
    {parentAlias : String} {u : Unit}
    (hrun : (correlate relation parentAlias).Runs e u done) :
    Correlates parentAlias relation e done := by
  rcases h.named e.base h.base_joined with ⟨a, ha⟩
  cases relation with
  | through name owner definition first second =>
    -- a through relation is refused
    simp only [correlate, correlation, runs_bind, runs_throw, and_false, false_and, exists_false] at hrun
  | direct name owner definition link target =>
    cases link with
    | hasMany foreignKey =>
      rcases (runs_correlate_single ha rfl).unique hrun with ⟨_, rfl⟩
      exact .hasMany ha
    | belongsTo foreignKey =>
      rcases (runs_correlate_single ha rfl).unique hrun with ⟨_, rfl⟩
      exact .belongsTo ha
    | manyToMany joinTable foreignKey associationKey =>
      rcases (runs_correlate_double rfl).unique hrun with ⟨_, rfl⟩
      exact .manyToMany rfl
    | unknown kind =>
      simp only [correlate, correlation, runs_bind, runs_throw, and_false, false_and,
        exists_false] at hrun

end Draft

end DocQuery
