import DocQuery.Proofs.Build.Growth
import DocQuery.Proofs.Condition.Steps

namespace DocQuery

/-! # Joined relations are not at fault

Whatever grows a draft, the relations that come in are those that can be joined. So a relation that
is joined already is not at fault, though it is not looked at again.

* `JoinStep.passed`: joining brings in only relations that can be joined.
* `Grows.passed`: so does everything that a build of conditions does.
-/

namespace Draft

variable {s : Schema} {d e : Draft s}

/-- No joined relation is at fault. -/
def Passed (d : Draft s) : Prop :=
  ∀ (parent : TablePath) (name : String) (owner : Model s) (r : Relation s),
    parent.child (.relation name) ∈ d.joined → d.modelAt? parent = some owner →
      owner.relation? name = some r → r.fault? = none

theorem passed_withBase (model : Model s) (config : Config) (baseAlias : String)
    (usedAliases : List String) (lastParam : Nat) :
    (withBase model config baseAlias usedAliases lastParam).Passed := by
  intro parent name owner r hjoined
  have hroot : parent.child (.relation name) = TablePath.child ⟨[]⟩ (.base model.table) :=
    List.mem_singleton.1 hjoined
  -- the base alone is joined, and it is no relation
  cases (TablePath.child_inj.1 hroot).2

/-- Entering a table keeps what is said of the relations that are joined before. -/
theorem Passed.enter (h : d.Passed) (hd : d.Tidy) {path : TablePath} {model : Model s}
    (he : d.Enters path model e)
    (hnew : ∀ parent name owner r, path = parent.child (.relation name) →
      e.modelAt? parent = some owner → owner.relation? name = some r → r.fault? = none) :
    e.Passed := by
  intro parent name owner r hjoined howner hfound
  rcases he.mem_joined.1 hjoined with hpath | hjoined
  · exact hnew parent name owner r hpath.symm howner hfound
  · rcases hd.reached parent name hjoined with ⟨_, _, hparent, _⟩
    rw [he.modelAt?_eq hparent] at howner
    exact h parent name owner r hjoined howner hfound

/-- The same where the table is that of one relation. -/
theorem Passed.enter_relation (h : d.Passed) (hd : d.Tidy) {parent : TablePath} {name a : String}
    {owner model : Model s} {r : Relation s} (below : d.Below parent name owner a)
    (found : owner.relation? name = some r) (hfault : r.fault? = none)
    (he : d.Enters (parent.child (.relation name)) model e) : e.Passed := by
  -- the one path that comes in is that of the relation
  refine h.enter hd he fun parent' name' owner' r' hpath howner hfound => ?_
  rcases TablePath.child_inj.1 hpath with ⟨rfl, hname⟩
  cases hname
  rw [he.modelAt?_eq below.joined, below.typed] at howner
  cases howner
  rw [found] at hfound
  cases hfound
  exact hfault

/-- The hops of a joined through relation are joined, so none is at fault. -/
theorem Passed.fault?_through (h : d.Passed) (hd : d.Tidy) {parent : TablePath} {name a : String}
    {owner : Model s} {definition : RelationDefinition} {first second : Relation s}
    (below : d.Below parent name owner a)
    (found : owner.relation? name = some (.through name owner definition first second))
    (joined : (parent.child (.relation first.name)).child (.relation second.name) ∈ d.joined) :
    (Relation.through name owner definition first second).fault? = none := by
  rcases Model.relation?_resolved found with ⟨hresolved, -, -⟩
  cases hresolved with
  | through _ first_owner second_owner first_resolved second_resolved =>
    rcases hd.reached _ _ joined with ⟨_, _, hfirst, _⟩
    have htyped : d.modelAt? parent = some first.owner := by
      rw [first_owner]
      exact below.typed
    have hfirstFault := h parent first.name _ _ hfirst htyped first_resolved.found
    rcases hd.reached _ _ hfirst with ⟨owner', r', _, howner', hfound', htarget, _⟩
    rw [htyped] at howner'
    cases howner'
    rw [first_resolved.found] at hfound'
    cases hfound'
    have hsecondTyped : d.modelAt? (parent.child (.relation first.name)) = some second.owner := by
      rw [second_owner]
      exact htarget
    -- both hops have been joined on the way, so neither is at fault
    have hsecondFault := h _ second.name _ _ joined hsecondTyped second_resolved.found
    rw [Relation.fault?, hfirstFault, hsecondFault]
    rfl

theorem JoinStep.passed (h : JoinStep d e) (hd : d.Tidy) (hp : d.Passed) : e.Passed := by
  cases h with
  | single below found keys =>
    refine hp.enter_relation hd below found ?_ below.enters_single
    rcases keys with ⟨rfl, _⟩ | ⟨rfl, _⟩ <;> rfl
  | double below found unnamed =>
    exact hp.enter_relation hd below found rfl (below.enters_double unnamed)
  | through below found joined named =>
    exact hp.enter_relation hd below found (hp.fault?_through hd below found joined)
      below.enters_through

theorem SameTables.passed (h : SameTables d e) (hp : d.Passed) : e.Passed := by
  rw [h]
  exact hp

/-- No draft that grows comes to have a joined relation at fault. -/
theorem Grows.passed {subqueries : List (Relation s × List (Condition s))} (h : Grows subqueries d e)
    (hd : d.Tidy) (hp : d.Passed) : e.Passed := by
  induction h with
  | refl d => exact hp
  | trans first _ ihFirst ihSecond => exact ihSecond (first.tidy_steady hd).1 (ihFirst hd hp)
  | join step => exact step.passed hd hp
  | clause step => exact step.sameTables.passed hp
  | embed at_table typed named resolved inner spreads tree_eq correlates _ =>
    refine hp.enter hd (hd.enters_embed at_table _ _) fun parent name owner r hpath => ?_
    -- a derived table is no relation
    rcases at_table.child with ⟨derived, hplace⟩
    rw [hplace] at hpath
    cases (TablePath.child_inj.1 hpath).2

end Draft

end DocQuery
