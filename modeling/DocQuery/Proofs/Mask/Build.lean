import DocQuery.Proofs.Build.Carry
import DocQuery.Proofs.Mask.Document
import DocQuery.Proofs.Mask.Draft

namespace DocQuery

/-! # Masked builds

What a build makes of a draft, the build of the masked conditions makes of the masked draft. This is
proved step by step: a step is masked by another if the second does on masked drafts what the first
does, and the steps of a build are put together from steps with this property.

* `build_masks`: building a masked condition gives the same tree and the masked draft.
* `buildWhere_masks`: the same of the WHERE clause as a whole.
-/

open Draft

variable {s : Schema} {α β : Type}

namespace Build

/-- The second step does on masked drafts what the first does, with the same result. -/
abbrev Masks (step step' : Build s α) : Prop := Simulates masked step step'

end Build

open Build

namespace Draft

/-- Trees hold names of parameters, not what is bound to them. -/
theorem masks_pushWhere (tree : Predicate Test) :
    Masks (s := s) (modify (·.pushWhere tree)) (modify (·.pushWhere tree)) :=
  simulates_modify fun _ => rfl

/-! ## Joins -/

/-- Joins hold no operands. -/
theorem inert_masked : Inert (masked (s := s)) (fun _ => True) where
  isJoined _ _ := rfl
  aliasOf d path := d.aliasOf_masked path
  setAlias _ _ _ := rfl
  addJoin d table tableAlias left key := by
    rw [← addJoin_masked, Statement.maskedJoin_table]
  markJoined _ _ _ := rfl
  addInclude d path := d.addInclude_masked path
  aliasOf_kept _ _ := trivial
  setAlias_kept _ _ _ := trivial
  addJoin_kept _ _ _ _ _ := trivial
  markJoined_kept _ _ _ := trivial
  addInclude_kept _ _ := trivial

theorem masks_addJoin (table tableAlias : String) (left : QualifiedColumn) (key : String) :
    Masks (s := s) (modify (·.addJoin (.table table tableAlias left key)))
      (modify (·.addJoin (.table table tableAlias left key))) :=
  simulates_of_carries fun _ => inert_masked.carries_addJoin trivial table tableAlias left key

/-- The test that ties a sub-query to its parent compares columns, not values. -/
theorem masks_correlation (relation : Relation s) (parentAlias : String) :
    Masks (correlation relation parentAlias) (correlation relation parentAlias) := by
  unfold correlation
  refine simulates_get fun d => ?_
  cases relation with
  | through name owner definition first second => exact simulates_throw _ _
  | direct name owner definition link target =>
    cases link with
    | hasMany foreignKey =>
      exact (inert_masked.simulates_columnAt _ _).bind fun _ => simulates_pure _
    | belongsTo foreignKey =>
      exact (inert_masked.simulates_columnAt _ _).bind fun _ => simulates_pure _
    | manyToMany joinTable foreignKey associationKey =>
      refine (inert_masked.simulates_aliasOf _).bind fun _ => simulates_get fun _ =>
        (masks_addJoin _ _ _ _).bind fun _ => ?_
      -- only the paths change, and they hold no operands
      refine Simulates.bind (simulates_modify ?_) fun _ => simulates_pure _
      intro e
      rfl
    | unknown kind => exact simulates_throw _ _

theorem masks_correlate (relation : Relation s) (parentAlias : String) :
    Masks (correlate relation parentAlias) (correlate relation parentAlias) :=
  (masks_correlation relation parentAlias).bind fun test => masks_pushWhere test

end Draft

namespace Condition

/-! ## Conditions -/

/-- An order holds no values. -/
theorem masks_orderBy (table : TablePath) (entries : List (Column s × Direction)) :
    Masks (orderBy table entries) (orderBy table entries) := by
  induction entries with
  | nil => exact simulates_pure _
  | cons entry entries ih =>
    rcases entry with ⟨column, direction⟩
    refine (inert_masked.simulates_joinColumn table column).bind fun path =>
      Simulates.bind (simulates_modify ?_) fun _ => ih
    intro d
    exact d.addOrder_masked path _ direction

theorem masks_atRoot (function : FunctionName) (table : TablePath) {step step' : Build s Unit}
    (h : Masks step step') : Masks (atRoot function table step) (atRoot function table step') :=
  simulates_ite h (simulates_throw _ _)

/-- The masked values are bound under the names of the values. -/
theorem masks_bindAll (values : List Operand) :
    Masks (s := s) (modifyGet (·.bindAll values))
      (modifyGet (·.bindAll (values.map Operand.masked))) :=
  simulates_modifyGet fun d => d.bindAll_masked values

/-- Masking keeps how many documents there are. -/
theorem documentCount_masked (targets : List (Target s (List (List (Condition s))))) :
    documentCount (maskedJoins targets) = documentCount targets := by
  cases targets with
  | nil => rw [maskedJoins]
  | cons target targets =>
    rw [maskedJoins, documentCount, documentCount, maskedDocuments_eq_map, List.length_map]

/-- The derived table of a masked sub-query is the masked derived table of the sub-query. -/
theorem masks_derivedJoin {relation : Relation s} {subquery conditions : List (Condition s)}
    (table : TablePath) (column : Column s)
    (hsubquery : ∀ path, Masks (buildEach subquery path) (buildEach (maskedEach subquery) path))
    (hconditions : ∀ path,
      Masks (buildEach conditions path) (buildEach (maskedEach conditions) path)) :
    Masks (build (.derivedJoin column relation subquery conditions) table)
      (build (.derivedJoin column relation (maskedEach subquery) (maskedEach conditions)) table) := by
  rw [build, build]
  refine simulates_get fun d => ?_
  rw [derivedPath_masked]
  refine (inert_masked.simulates_aliasOf table).bind fun parentAlias => ?_
  -- the finished sub-query is part of the run's state, so the run is taken apart
  intro d₁ tree e hrun
  simp only [runs_bind, runs_modifyGet, runs_modify, runs_within, runs_pure] at hrun ⊢
  rcases hrun with
      ⟨_, _, ⟨rfl, rfl⟩, ⟨u, done⟩, _, ⟨⟨trees, built, hsub, _, _, rfl, hcorrelate⟩, rfl⟩, _, _,
        rfl, _, _, rfl, trees', _, hnested, rfl, rfl⟩
  have hopen := d₁.openNested_masked relation.target (derivedPath d table relation.name)
  have hsub' := hsubquery _ _ _ _ hsub
  have hcorrelate' := masks_correlate relation parentAlias _ _ _ hcorrelate
  have hnested' := hconditions _ _ _ _ hnested
  rw [← joinDerived_masked, ← absorb_masked] at hnested'
  simp only [Statement.maskedJoin, ← finish_masked] at hnested'
  refine ⟨_, _, ⟨rfl, rfl⟩, ⟨u, done.masked⟩, _, ⟨⟨trees, built.masked, ?_, (), _, rfl, hcorrelate'⟩,
    rfl⟩, (), _, rfl, (), _, rfl, trees', _, ?_, rfl, rfl⟩
  · rw [hopen]
    exact hsub'
  · rw [hopen]
    exact hnested'

/-- What is selected does not depend on operands. -/
theorem masks_buildSelect {conditions : List (Condition s)} (table : TablePath) (column : Column s)
    (hconditions : ∀ path,
      Masks (buildEach conditions path) (buildEach (maskedEach conditions) path)) :
    Masks (buildSelect ⟨column, conditions⟩ table)
      (buildSelect ⟨column, maskedEach conditions⟩ table) := by
  -- masking keeps whether there are conditions
  have hempty : (maskedEach conditions).isEmpty = conditions.isEmpty := by
    cases conditions <;> rfl
  rw [buildSelect, buildSelect, hempty]
  refine simulates_ite ?_ ?_
  · refine (inert_masked.simulates_joinColumn table column).bind fun path =>
      (inert_masked.simulates_columnAt path _).bind fun _ => ?_
    refine Simulates.bind (simulates_modify ?_) fun _ => simulates_pure _
    intro d
    exact d.addSelect_masked _
  · refine (inert_masked.simulates_includeRelation table column).bind fun _ =>
      simulates_ite (simulates_pure _) ?_
    exact (inert_masked.simulates_joinRelation table column).bind fun path =>
      (hconditions path).bind fun _ => simulates_pure _

mutual

/-- Building the masked condition is building the condition, on the masked draft. -/
theorem build_masks : ∀ (c : Condition s) (table : TablePath),
    Masks (build c table) (build c.masked table)
  -- The trees agree as names are given in order, so only the bound values have to be masked.
  | .comparison rule template columns values, table => by
    rw [masked, build, build]
    exact (inert_masked.simulates_joinColumns table columns).bind fun _ =>
      (masks_bindAll values).bind fun _ => simulates_pure _
  | .presence rule template columns, table => by
    rw [masked, build]
    exact (inert_masked.simulates_joinColumns table columns).bind fun _ => simulates_pure _
  | .membership rule template columns values, table => by
    rw [masked, build, build]
    exact (inert_masked.simulates_joinColumns table columns).bind fun _ =>
      (simulates_modifyGet fun d => d.bind_masked values).bind fun _ => simulates_pure _
  | .range rule template columns low high, table => by
    rw [masked, build, build]
    exact (inert_masked.simulates_joinColumns table columns).bind fun _ =>
      (masks_bindAll [low, high]).bind fun _ => simulates_pure _
  | .overlap rule template columns span, table => by
    rw [masked, build, build]
    refine (inert_masked.simulates_joinColumns table columns).bind fun _ =>
      Simulates.bind ?_ fun _ => simulates_pure _
    exact masks_bindAll [.instant span.start, .instant span.stop]
  | .relationJoin targets, table => by
    rw [masked, build, build, documentCount_masked]
    exact (buildJoins_masks _ targets table).bind fun _ => simulates_pure _
  | .derivedJoin column relation subquery conditions, table => by
    rw [masked]
    exact masks_derivedJoin table column (buildEach_masks subquery) (buildEach_masks conditions)
  | .select targets, table => by
    rw [masked, build, build]
    exact (buildSelects_masks targets table).bind fun _ => simulates_pure _
  | .order entries, table => by
    rw [masked, build]
    exact (masks_atRoot _ _ (masks_orderBy table entries)).bind fun _ => simulates_pure _
  | .limit n, table => by
    rw [masked, build]
    refine (masks_atRoot _ table ?_).bind fun _ => simulates_pure _
    exact simulates_modify fun _ => rfl
  | .offset n, table => by
    rw [masked, build]
    refine (masks_atRoot _ table ?_).bind fun _ => simulates_pure _
    exact simulates_modify fun _ => rfl

/-- Conditions that are built one after the other are masked, as each of them is. -/
theorem buildEach_masks : ∀ (conditions : List (Condition s)) (table : TablePath),
    Masks (buildEach conditions table) (buildEach (maskedEach conditions) table)
  | [], table => by
    rw [maskedEach, buildEach]
    exact simulates_pure _
  | condition :: conditions, table => by
    rw [maskedEach, buildEach, buildEach]
    exact (build_masks condition table).bind fun _ =>
      (buildEach_masks conditions table).bind fun _ => simulates_pure _

theorem buildDocuments_masks : ∀ (documents : List (List (Condition s))) (table : TablePath),
    Masks (buildDocuments documents table) (buildDocuments (maskedDocuments documents) table)
  | [], table => by
    rw [maskedDocuments, buildDocuments]
    exact simulates_pure _
  | document :: documents, table => by
    rw [maskedDocuments, buildDocuments, buildDocuments]
    exact (buildEach_masks document table).bind fun _ =>
      (buildDocuments_masks documents table).bind fun _ => simulates_pure _

theorem buildJoins_masks (within : Connective) :
    ∀ (targets : List (Target s (List (List (Condition s))))) (table : TablePath),
      Masks (buildJoins within targets table) (buildJoins within (maskedJoins targets) table)
  | [], table => by
    rw [maskedJoins, buildJoins]
    exact simulates_pure _
  | ⟨column, documents⟩ :: targets, table => by
    rw [maskedJoins, buildJoins, buildJoins, buildJoin, buildJoin]
    exact ((inert_masked.simulates_joinRelation table column).bind fun path =>
      (buildDocuments_masks documents path).bind fun _ => simulates_pure _).bind fun _ =>
      (buildJoins_masks within targets table).bind fun _ => simulates_pure _

theorem buildSelects_masks :
    ∀ (targets : List (Target s (List (Condition s)))) (table : TablePath),
      Masks (buildSelects targets table) (buildSelects (maskedSelects targets) table)
  | [], table => by
    rw [maskedSelects, buildSelects]
    exact simulates_pure _
  | ⟨column, conditions⟩ :: targets, table => by
    rw [maskedSelects, buildSelects, buildSelects]
    exact (masks_buildSelect table column (buildEach_masks conditions)).bind fun _ =>
      (buildSelects_masks targets table).bind fun _ => simulates_pure _

end

/-- The WHERE clause of the masked conditions is the clause of the conditions. -/
theorem buildWhere_masks (conditions : List (Condition s)) (table : TablePath) :
    Masks (buildWhere conditions table) (buildWhere (maskedEach conditions) table) := by
  induction conditions with
  | nil => exact simulates_pure _
  | cons condition conditions ih =>
    rw [maskedEach, buildWhere, buildWhere]
    refine (build_masks condition table).bind fun tree => ?_
    cases tree with
    | none => exact ih
    | some tree => exact (masks_pushWhere tree).bind fun _ => ih

end Condition

end DocQuery
