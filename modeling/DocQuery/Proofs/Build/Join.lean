import DocQuery.Proofs.Build.Run
import DocQuery.Proofs.Draft.Spread
import DocQuery.Proofs.Draft.Tidy

namespace DocQuery

/-! # Runs that join

Joining a relation below a table of its owner is a number of join steps, and afterwards its path is
a table of its target. From it follow the same for the relations on the way to a column.

* `Tidy.joinsRelation_through`: a through relation is joined by its hops, and its path names the
  table of the second.
-/

open Build

variable {s : Schema}

/-- The columns of the owner and of the target that a link without a join table equates. -/
def Link.keys? (owner target : Model s) : Link → Option (String × String)
  | .hasMany foreignKey => some (owner.primaryKey, foreignKey)
  | .belongsTo foreignKey => some (foreignKey, target.primaryKey)
  | _ => none

namespace Draft

variable {d e f : Draft s} {parent : TablePath}

/-! ## Aliases of joined tables -/

/-- The alias of a joined table is there already. -/
theorem Tidy.aliasOf_joined (h : d.Tidy) {path : TablePath} (hpath : path ∈ d.joined) :
    ∃ a, d.aliasAt? path = some a ∧ d.aliasOf path = (a, d) := by
  rcases h.named path hpath with ⟨a, ha⟩
  exact ⟨a, ha, aliasOf_of_some ha⟩

/-- A column of a joined table is qualified by the table's alias. -/
theorem Tidy.columnAt_joined (h : d.Tidy) {path : TablePath} (hpath : path ∈ d.joined)
    (name : String) :
    ∃ a, d.aliasAt? path = some a ∧ d.columnAt path name = (⟨a, name⟩, d) := by
  rcases h.aliasOf_joined hpath with ⟨a, ha, halias⟩
  exact ⟨a, ha, by rw [columnAt, halias]⟩

/-- A child of a joined table knows its parent. -/
theorem Tidy.parent?_child (h : d.Tidy) (hparent : parent ∈ d.joined) (step : PathStep) :
    (parent.child step).parent? = some parent :=
  TablePath.parent?_child (h.steps_ne_nil hparent) step

/-! ## A relation -/

/-- Entering the path of a relation brings in that relation. -/
theorem Enters.spreads {name : String} {model : Model s}
    (he : d.Enters (parent.child (.relation name)) model e) : Spreads parent [name] d e where
  keeps := by
    intro path hpath
    exact he.mem_joined.2 (.inr hpath)
  below := by
    intro path hpath
    rcases he.mem_joined.1 hpath with rfl | hpath
    · exact .inr (TablePath.isBelow_child _ _)
    · exact .inl hpath
  relations := by
    intro name'
    rw [he.mem_joined, TablePath.child_inj]
    simp [or_comm]

/-- What joining `r` below a table of its owner comes to. -/
structure JoinsRelation (r : Relation s) (parent : TablePath) (d e : Draft s) : Prop where
  joins : Joins d e
  mem : parent.child (.relation r.name) ∈ e.joined
  typed : e.modelAt? (parent.child (.relation r.name)) = some r.target
  spreads : Spreads parent (r.leads.map Relation.name) d e

/-- A relation whose path is joined needs no joining. -/
theorem Tidy.joinsRelation_refl (h : d.Tidy) {r : Relation s} (hr : r.Resolved)
    (howner : d.modelAt? parent = some r.owner)
    (hmem : parent.child (.relation r.name) ∈ d.joined) : JoinsRelation r parent d d := by
  rcases h.reached _ _ hmem with ⟨owner, r', _, howner', hfound, htarget, hleads⟩
  rw [howner] at howner'
  cases howner'
  rw [hr.found] at hfound
  cases hfound
  refine ⟨.refl, hmem, htarget, fun _ hq => hq, fun _ hq => .inl hq, ?_⟩
  intro name
  -- all that the relation leads over has been joined with it
  constructor
  · exact .inl
  · rintro (hname | hname)
    · exact hname
    · rcases List.mem_map.1 hname with ⟨lead, hlead, rfl⟩
      exact hleads lead hlead

/-- Entering the path of a direct relation joins the relation. -/
theorem JoinStep.joinsRelation (h : JoinStep d e) {r : Relation s} (hleads : r.leads = [r])
    (he : d.Enters (parent.child (.relation r.name)) r.target e) : JoinsRelation r parent d e where
  joins := .single h
  mem := he.mem_joined.2 (.inl rfl)
  typed := by rw [he.modelAt?, if_pos rfl]
  spreads := by
    rw [hleads]
    exact he.spreads

section Links

variable {name a leftKey key : String} {owner target : Model s} {definition : RelationDefinition}
  {link : Link}

/-- The join table of a relation that is not joined yet has no alias. -/
theorem Below.joinTable_unnamed (below : d.Below parent name owner a) (h : d.Tidy) :
    d.aliasAt? (parent.child (.joinTable name)) = none :=
  h.joinTable_unnamed below.joined fun hlinked => below.unjoined hlinked.2.1

/-- A link without a join table introduces the table of the target. -/
theorem Below.runs_joinLink_single (below : d.Below parent name owner a)
    (keys : link.keys? owner target = some (leftKey, key)) :
    (joinLink parent (parent.child (.relation name)) a name owner target link).Runs d ()
      (d.introduce (parent.child (.relation name)) target.table ⟨a, leftKey⟩ key) := by
  cases link with
  | hasMany | belongsTo =>
    cases keys
    simp only [joinLink, runs_bind, runs_modifyGet, runs_modify, aliasOf_of_none below.unnamed]
    exact ⟨_, _, ⟨rfl, rfl⟩, rfl⟩
  | manyToMany | unknown => cases keys

/-- A link over a join table introduces the join table, and then the table of the target. -/
theorem Below.runs_joinLink_double (below : d.Below parent name owner a) (h : d.Tidy)
    (joinTable foreignKey associationKey : String) :
    (joinLink parent (parent.child (.relation name)) a name owner target
      (.manyToMany joinTable foreignKey associationKey)).Runs d ()
      ((d.introduce (parent.child (.joinTable name)) joinTable
        ⟨a, owner.primaryKey⟩ foreignKey).introduce
        (parent.child (.relation name)) target.table
        ⟨d.newAlias (parent.child (.joinTable name)), associationKey⟩ target.primaryKey) := by
  -- the alias of the join table goes to a path of its own, so the relation's is still unnamed
  have hpath : (d.giveAlias (parent.child (.joinTable name))).aliasAt?
      (parent.child (.relation name)) = none := by
    rw [aliasAt?_giveAlias, if_neg (by simp [TablePath.child_inj])]
    exact below.unnamed
  simp only [joinLink, runs_bind, runs_modifyGet, runs_modify,
    aliasOf_of_none (below.joinTable_unnamed h)]
  refine ⟨_, _, ⟨rfl, rfl⟩, ?_⟩
  rw [aliasOf_of_none hpath]
  exact ⟨_, _, ⟨rfl, rfl⟩, (), _, rfl, rfl⟩

theorem Tidy.runs_joinLink (h : d.Tidy) {u : Unit} (below : d.Below parent name owner a)
    (found : owner.relation? name = some (.direct name owner definition link target))
    (hrun : (joinLink parent (parent.child (.relation name)) a name owner target link).Runs d u e) :
    JoinStep d (e.markJoined (parent.child (.relation name)) target) ∧
      d.Enters (parent.child (.relation name)) target
        (e.markJoined (parent.child (.relation name)) target) := by
  -- one table for a foreign key on either side, two over a join table
  cases link with
  | hasMany foreignKey =>
    rcases (below.runs_joinLink_single rfl).unique hrun with ⟨_, rfl⟩
    exact ⟨.single below found (.inl ⟨rfl, rfl⟩), below.enters_single⟩
  | belongsTo foreignKey =>
    rcases (below.runs_joinLink_single rfl).unique hrun with ⟨_, rfl⟩
    exact ⟨.single below found (.inr ⟨rfl, rfl⟩), below.enters_single⟩
  | manyToMany joinTable foreignKey associationKey =>
    rcases (below.runs_joinLink_double h joinTable foreignKey associationKey).unique hrun with ⟨_, rfl⟩
    exact ⟨.double below found (below.joinTable_unnamed h),
      below.enters_double (below.joinTable_unnamed h)⟩
  | unknown kind =>
    unfold joinLink at hrun
    exact absurd hrun runs_throw

end Links

/-- The hops of a through relation do not join its own path, as none of them has its name. -/
theorem JoinsRelation.path_unjoined {name : String} {owner : Model s} {definition : RelationDefinition}
    {first second : Relation s} {d₁ d₂ : Draft s} (h₁ : JoinsRelation first parent d d₁)
    (h₂ : JoinsRelation second (parent.child (.relation first.name)) d₁ d₂)
    (hr : (Relation.through name owner definition first second).Resolved)
    (hunjoined : parent.child (.relation name) ∉ d.joined) :
    parent.child (.relation name) ∉ d₂.joined := by
  have hspreads := h₁.spreads.trans (h₂.spreads.of_inner (TablePath.isBelow_child _ _))
  rw [hspreads.relations]
  rintro (hpath | hname)
  · exact hunjoined hpath
  · rw [List.append_nil] at hname
    rcases List.mem_map.1 hname with ⟨lead, hlead, hname⟩
    exact hr.name_notMem_leads hlead hname

/-- Where both hops of a through relation are joined, its path takes over the alias of the second. -/
theorem Tidy.joinsRelation_through (h : d.Tidy) {name b : String} {owner : Model s}
    {definition : RelationDefinition} {first second : Relation s} {d₁ d₂ : Draft s}
    (hr : (Relation.through name owner definition first second).Resolved)
    (hparent : parent ∈ d.joined) (howner : d.modelAt? parent = some owner)
    (hunjoined : parent.child (.relation name) ∉ d.joined) (h₁ : JoinsRelation first parent d d₁)
    (h₂ : JoinsRelation second (parent.child (.relation first.name)) d₁ d₂)
    (hb : d₂.aliasAt? ((parent.child (.relation first.name)).child (.relation second.name)) =
      some b) :
    JoinsRelation (.through name owner definition first second) parent d
      ((d₂.setAlias (parent.child (.relation name)) b).markJoined (parent.child (.relation name))
        second.target) := by
  rcases h.named parent hparent with ⟨a, ha⟩
  have hjoins : Joins d d₂ := h₁.joins.trans h₂.joins
  have htidy₂ : d₂.Tidy := hjoins.tidy h
  -- the hops spread from the parent, and the path of the relation itself is none of them
  have hspreads := h₁.spreads.trans (h₂.spreads.of_inner (TablePath.isBelow_child _ _))
  have hunjoined₂ := h₁.path_unjoined h₂ hr hunjoined
  have below : d₂.Below parent name owner a :=
    ⟨hjoins.joined_subset hparent, hjoins.aliasAt?_eq ha, (hjoins.modelAt?_eq hparent).trans howner,
      hunjoined₂, htidy₂.relation_unnamed hunjoined₂⟩
  have henters : d₂.Enters (parent.child (.relation name)) second.target
      ((d₂.setAlias (parent.child (.relation name)) b).markJoined (parent.child (.relation name))
        second.target) := below.enters_through
  refine ⟨hjoins.tail (.through below hr.found h₂.mem hb), henters.mem_joined.2 (.inl rfl), ?_, ?_⟩
  · rw [Relation.name, henters.modelAt?, if_pos rfl]
    rfl
  · refine (hspreads.trans henters.spreads).congr ?_
    intro name'
    simp [Relation.leads, Relation.name, or_comm]

/-- Joining a resolved relation below a table of its owner. -/
theorem Tidy.runs_join (h : d.Tidy) {r : Relation s} (hr : r.Resolved) (hparent : parent ∈ d.joined)
    (howner : d.modelAt? parent = some r.owner) {u : Unit}
    (hrun : (join r (parent.child (.relation r.name))).Runs d u e) : JoinsRelation r parent d e := by
  induction hr generalizing d e parent u with
  | @direct name owner definition link target found =>
    unfold join at hrun
    simp only [runs_bind, runs_get] at hrun
    rcases hrun with ⟨_, _, ⟨rfl, rfl⟩, hrun⟩
    split at hrun
    · -- the path is joined already
      rename_i hmem
      rw [runs_pure] at hrun
      rcases hrun with ⟨_, rfl⟩
      exact h.joinsRelation_refl (.direct found) howner (of_decide_eq_true hmem)
    · rename_i hmem
      rcases h.aliasOf_joined hparent with ⟨a, ha, halias⟩
      have hunjoined : parent.child (.relation name) ∉ d.joined := by
        intro hpath
        exact hmem (decide_eq_true hpath)
      have below : d.Below parent name owner a :=
        ⟨hparent, ha, howner, hunjoined, h.relation_unnamed hunjoined⟩
      rw [Relation.name, h.parent?_child hparent] at hrun
      simp only [runs_bind, runs_modifyGet, runs_modify, halias] at hrun
      rcases hrun with ⟨_, _, ⟨rfl, rfl⟩, _, _, hlink, rfl⟩
      rcases h.runs_joinLink below found hlink with ⟨hstep, henters⟩
      exact hstep.joinsRelation rfl henters
  | @through name owner definition first second found first_owner second_owner first_resolved
      second_resolved ihFirst ihSecond =>
    unfold join at hrun
    simp only [runs_bind, runs_get] at hrun
    rcases hrun with ⟨_, _, ⟨rfl, rfl⟩, hrun⟩
    have hr : (Relation.through name owner definition first second).Resolved :=
      .through found first_owner second_owner first_resolved second_resolved
    split at hrun
    · rename_i hmem
      rw [runs_pure] at hrun
      rcases hrun with ⟨_, rfl⟩
      exact h.joinsRelation_refl hr howner (of_decide_eq_true hmem)
    · rename_i hmem
      rcases h.aliasOf_joined hparent with ⟨_, _, halias⟩
      have hunjoined : parent.child (.relation name) ∉ d.joined := by
        intro hpath
        exact hmem (decide_eq_true hpath)
      rw [Relation.name, h.parent?_child hparent] at hrun
      simp only [runs_bind, runs_modifyGet, runs_modify, halias] at hrun
      rcases hrun with
          ⟨_, _, ⟨rfl, rfl⟩, _, d₁, hfirst, _, d₂, hsecond, _, _, ⟨rfl, rfl⟩, _, _, rfl, rfl⟩
      -- the hops are joined one below the other
      have h₁ : JoinsRelation first parent d d₁ := by
        refine ihFirst h hparent ?_ hfirst
        rw [first_owner]
        exact howner
      have htidy₁ := h₁.joins.tidy h
      have h₂ : JoinsRelation second (parent.child (.relation first.name)) d₁ d₂ := by
        refine ihSecond htidy₁ h₁.mem ?_ hsecond
        rw [second_owner]
        exact h₁.typed
      rcases (h₂.joins.tidy htidy₁).aliasOf_joined h₂.mem with ⟨b, hb, halias₂⟩
      rw [halias₂]
      exact h.joinsRelation_through hr hparent howner hunjoined h₁ h₂ hb

end Draft

end DocQuery
