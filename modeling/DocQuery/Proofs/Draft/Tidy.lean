import DocQuery.Proofs.Draft.Joins

namespace DocQuery

/-! # Tidy drafts

The tables of a tidy draft are in order: what is joined has a model and an alias, what has an alias
has a reason to, and the alias stands in the statement. So whatever is joined next gets an alias of
its own. A new draft is tidy, and joining keeps it so.

* `JoinStep.tidy`: each step of joining keeps a draft tidy.
* `Tidy.unnamed_of_isHop`: what is not joined has no alias, so what is joined next gets its own.
-/

variable {s : Schema}

/-- The model joins its relation `name` over a join table. -/
def Model.LinksOver (owner : Model s) (name : String) : Prop :=
  ∃ (definition : RelationDefinition) (joinTable foreignKey associationKey : String)
    (target : Model s), owner.relation? name =
      some (.direct name owner definition (.manyToMany joinTable foreignKey associationKey) target)

/-- The paths that relations and derived tables are joined at. -/
def TablePath.IsHop (path : TablePath) : Prop :=
  ∃ (parent : TablePath) (name : String),
    path = parent.child (.relation name) ∨ path = parent.child (.derived name)

namespace Draft

/-- The relation `name` is joined below a table of its owner, at a table of its target, and so are
the first hops inside it. -/
def Reached (d : Draft s) (parent : TablePath) (name : String) : Prop :=
  ∃ owner r, parent ∈ d.joined ∧ d.modelAt? parent = some owner ∧ owner.relation? name = some r ∧
    d.modelAt? (parent.child (.relation name)) = some r.target ∧
    ∀ lead ∈ r.leads, parent.child (.relation lead.name) ∈ d.joined

/-- The relation `name` is joined below `parent`, and over a join table. -/
def Linked (d : Draft s) (parent : TablePath) (name : String) : Prop :=
  parent ∈ d.joined ∧ parent.child (.relation name) ∈ d.joined ∧
    ∃ owner, d.modelAt? parent = some owner ∧ owner.LinksOver name

/-- Why a path may have an alias: it is joined, it is the join table of a joined relation, or it is
the base of the sub-query of a joined derived table. Only in the last case the statement itself does
not introduce the alias. -/
def Accounted (d : Draft s) (path : TablePath) (a : String) : Prop :=
  (a ∈ d.scope ∧ (path ∈ d.joined ∨
    ∃ (parent : TablePath) (name : String), path = parent.child (.joinTable name) ∧
      d.Linked parent name)) ∨
    ∃ (place : TablePath) (table : String), path = place.child (.base table) ∧ place ∈ d.joined

/-- The tables of a draft are in order. -/
structure Tidy (d : Draft s) : Prop where
  rooted : d.base = .root d.model.table
  base_joined : d.base ∈ d.joined
  hops : ∀ path ∈ d.joined, path = d.base ∨ path.IsHop
  named : ∀ path ∈ d.joined, ∃ a, d.aliasAt? path = some a
  typed : ∀ path ∈ d.joined, ∃ m, d.modelAt? path = some m
  reached : ∀ (parent : TablePath) (name : String),
    parent.child (.relation name) ∈ d.joined → d.Reached parent name
  accounted : ∀ path a, d.aliasAt? path = some a → d.Accounted path a
  linked : ∀ parent name, d.Linked parent name →
    ∃ a, d.aliasAt? (parent.child (.joinTable name)) = some a

/-- At or behind the base table only the base table itself is a root. -/
theorem Tidy.eq_base_of_isRoot {d : Draft s} (h : d.Tidy) {table : TablePath}
    (hbehind : d.base.steps <+: table.steps) (hroot : table.isRoot = true) : table = d.base := by
  have hlength : table.steps.length = 1 := of_decide_eq_true hroot
  have hbase : d.base.steps.length = 1 := by
    rw [h.rooted]
    rfl
  have hsteps := hbehind.eq_of_length (hbase.trans hlength.symm)
  exact (congrArg TablePath.mk hsteps).symm

/-- A fresh draft has its base, and nothing else to put in order. -/
theorem tidy_withBase (model : Model s) (config : Config) (baseAlias : String)
    (usedAliases : List String) (lastParam : Nat) :
    (withBase model config baseAlias usedAliases lastParam).Tidy where
  rooted := rfl
  base_joined := List.mem_singleton_self _
  hops := by
    intro path hpath
    exact .inl (List.mem_singleton.1 hpath)
  named := by
    intro path hpath
    rw [withBase, List.mem_singleton] at hpath
    exact ⟨baseAlias, by simp [aliasAt?, withBase, hpath]⟩
  typed := by
    intro path hpath
    rw [withBase, List.mem_singleton] at hpath
    exact ⟨model, by simp [modelAt?, withBase, hpath]⟩
  reached := by
    intro parent name hpath
    have hroot : parent.child (.relation name) = TablePath.child ⟨[]⟩ (.base model.table) :=
      List.mem_singleton.1 hpath
    -- the base alone is joined, and it is no relation
    cases (TablePath.child_inj.1 hroot).2
  accounted := by
    intro path a ha
    simp only [aliasAt?, withBase, lookup_cons_eq, List.lookup_nil] at ha
    split at ha
    · rename_i hbase
      cases ha
      exact .inl ⟨List.mem_cons_self, .inl (hbase ▸ List.mem_singleton_self _)⟩
    · cases ha
  linked := by
    intro parent name h
    have hroot : parent.child (.relation name) = TablePath.child ⟨[]⟩ (.base model.table) :=
      List.mem_singleton.1 h.2.1
    cases (TablePath.child_inj.1 hroot).2

/-! ## Entering a table -/

/-- What is reached stays reached. -/
theorem Reached.enter {d e : Draft s} {parent path : TablePath} {name : String} {model : Model s}
    (h : d.Reached parent name) (he : d.Enters path model e)
    (hjoined : parent.child (.relation name) ∈ d.joined) : e.Reached parent name := by
  rcases h with ⟨owner, r, hparent, howner, hfound, htarget, hleads⟩
  refine ⟨owner, r, he.mem_joined.2 (.inr hparent), ?_, hfound, ?_, ?_⟩
  · rw [he.modelAt?_eq hparent, howner]
  · rw [he.modelAt?_eq hjoined, htarget]
  · intro lead hlead
    exact he.mem_joined.2 (.inr (hleads lead hlead))

/-- What is linked stays linked. -/
theorem Linked.enter {d e : Draft s} {parent path : TablePath} {name : String} {model : Model s}
    (h : d.Linked parent name) (he : d.Enters path model e) : e.Linked parent name := by
  rcases h with ⟨hparent, hpath, owner, howner, hlinks⟩
  refine ⟨he.mem_joined.2 (.inr hparent), he.mem_joined.2 (.inr hpath), owner, ?_, hlinks⟩
  rw [he.modelAt?_eq hparent, howner]

/-- An alias that has a reason keeps it. -/
theorem Accounted.enter {d e : Draft s} {q path : TablePath} {a : String} {model : Model s}
    (h : d.Accounted q a) (he : d.Enters path model e) : e.Accounted q a := by
  rcases h with ⟨ha, hq | ⟨parent, name, hq, hlinked⟩⟩ | ⟨place, table, hq, hplace⟩
  · exact .inl ⟨he.scope a ha, .inl (he.mem_joined.2 (.inr hq))⟩
  · exact .inl ⟨he.scope a ha, .inr ⟨parent, name, hq, hlinked.enter he⟩⟩
  · exact .inr ⟨place, table, hq, he.mem_joined.2 (.inr hplace)⟩

/-- A draft stays tidy when a hop is entered, if the new aliases are accounted for and a relation is
entered together with what belongs to it. -/
theorem Tidy.enter {d e : Draft s} (h : d.Tidy) {path : TablePath} {model : Model s}
    (he : d.Enters path model e) (hhop : path.IsHop)
    (hnew : ∀ q a, e.aliasAt? q = some a → d.aliasAt? q = some a ∨ e.Accounted q a)
    (hreached : ∀ parent name, path = parent.child (.relation name) → e.Reached parent name)
    (hlinked : ∀ parent name, path = parent.child (.relation name) → e.Linked parent name →
      ∃ a, e.aliasAt? (parent.child (.joinTable name)) = some a) : e.Tidy where
  rooted := by rw [he.sameBase, he.sameModel, h.rooted]
  base_joined := by
    rw [he.sameBase]
    exact he.mem_joined.2 (.inr h.base_joined)
  hops := by
    intro q hq
    rw [he.sameBase]
    rcases he.mem_joined.1 hq with rfl | hq
    · exact .inr hhop
    · exact h.hops q hq
  named := by
    intro q hq
    rcases he.mem_joined.1 hq with rfl | hq
    · exact he.named
    · -- what was joined before keeps its alias and its model
      rcases h.named q hq with ⟨a, ha⟩
      exact ⟨a, he.keeps q a ha⟩
  typed := by
    intro q hq
    rcases he.mem_joined.1 hq with rfl | hq
    · exact ⟨model, by rw [he.modelAt?, if_pos rfl]⟩
    · rcases h.typed q hq with ⟨m, hm⟩
      exact ⟨m, by rw [he.modelAt?_eq hq, hm]⟩
  reached := by
    intro parent name hq
    rcases he.mem_joined.1 hq with hpath | hq
    · exact hreached parent name hpath.symm
    · exact (h.reached parent name hq).enter he hq
  accounted := by
    intro q a ha
    rcases hnew q a ha with hold | hq
    · exact (h.accounted q a hold).enter he
    · exact hq
  linked := by
    intro parent name hl
    rcases he.mem_joined.1 hl.2.1 with hpath | hq
    · exact hlinked parent name hpath.symm hl
    · -- a relation that was joined before had its owner at the same table then
      rcases hl with ⟨_, _, owner, howner, hlinks⟩
      rcases h.reached parent name hq with ⟨_, _, hparent, _⟩
      rw [he.modelAt?_eq hparent] at howner
      rcases h.linked parent name ⟨hparent, hq, owner, howner, hlinks⟩ with ⟨a, ha⟩
      exact ⟨a, he.keeps _ a ha⟩

/-! ## Free paths -/

/-- A joined path below another table ends with a relation or a derived table. -/
theorem Tidy.isHop {d : Draft s} (h : d.Tidy) {parent : TablePath} {step : PathStep}
    (hsteps : parent.steps ≠ []) (hpath : parent.child step ∈ d.joined) :
    (parent.child step).IsHop := by
  rcases h.hops _ hpath with heq | hhop
  · rw [h.rooted] at heq
    have hroot : parent.child step = TablePath.child ⟨[]⟩ (.base d.model.table) := heq
    exact absurd (congrArg TablePath.steps (TablePath.child_inj.1 hroot).1) hsteps
  · exact hhop

/-- A joined path has steps. -/
theorem Tidy.steps_ne_nil {d : Draft s} (h : d.Tidy) {path : TablePath} (hpath : path ∈ d.joined) :
    path.steps ≠ [] := by
  rcases h.hops path hpath with rfl | ⟨parent, name, rfl | rfl⟩
  · rw [h.rooted]
    simp [TablePath.root]
  · simp [TablePath.child]
  · simp [TablePath.child]

/-- The path of a join table is not one that relations are joined at. -/
theorem joinTable_not_isHop {parent : TablePath} {name : String} :
    ¬(parent.child (.joinTable name)).IsHop := by
  rintro ⟨_, _, h | h⟩
  · cases (TablePath.child_inj.1 h).2
  · cases (TablePath.child_inj.1 h).2

/-- Neither is the base of a sub-query. -/
theorem base_not_isHop {parent : TablePath} {table : String} :
    ¬(parent.child (.base table)).IsHop := by
  rintro ⟨_, _, h | h⟩
  · cases (TablePath.child_inj.1 h).2
  · cases (TablePath.child_inj.1 h).2

/-- A hop that is not joined has no alias. -/
theorem Tidy.unnamed_of_isHop {d : Draft s} (h : d.Tidy) {path : TablePath} (hhop : path.IsHop)
    (hpath : path ∉ d.joined) : d.aliasAt? path = none := by
  by_contra hsome
  rcases Option.ne_none_iff_exists'.1 hsome with ⟨a, ha⟩
  -- an alias would have one of three reasons, and two of them are about other kinds of paths
  rcases h.accounted _ a ha with ⟨_, hq | ⟨_, _, rfl, _⟩⟩ | ⟨_, _, rfl, _⟩
  · exact hpath hq
  · exact joinTable_not_isHop hhop
  · exact base_not_isHop hhop

/-- A relation that has not been joined has no alias. -/
theorem Tidy.relation_unnamed {d : Draft s} (h : d.Tidy) {parent : TablePath} {name : String}
    (hpath : parent.child (.relation name) ∉ d.joined) :
    d.aliasAt? (parent.child (.relation name)) = none :=
  h.unnamed_of_isHop ⟨parent, name, .inl rfl⟩ hpath

/-- Neither has a derived table that has not been joined. -/
theorem Tidy.derived_unnamed {d : Draft s} (h : d.Tidy) {parent : TablePath} {name : String}
    (hpath : parent.child (.derived name) ∉ d.joined) :
    d.aliasAt? (parent.child (.derived name)) = none :=
  h.unnamed_of_isHop ⟨parent, name, .inr rfl⟩ hpath

/-- Exactly the join tables of joined relations have an alias, and the statement introduces it. -/
theorem Tidy.joinTable_named_iff {d : Draft s} (h : d.Tidy) {parent : TablePath}
    (hparent : parent ∈ d.joined) (name : String) :
    (∃ a, d.aliasAt? (parent.child (.joinTable name)) = some a) ↔ d.Linked parent name := by
  constructor
  · rintro ⟨a, ha⟩
    rcases h.accounted _ a ha with ⟨_, hq | ⟨parent', name', heq, hlinked⟩⟩ | ⟨_, _, heq, _⟩
    · -- a join table is never joined as a path of its own
      exact absurd (h.isHop (h.steps_ne_nil hparent) hq) joinTable_not_isHop
    · rcases TablePath.child_inj.1 heq with ⟨rfl, hname⟩
      cases hname
      exact hlinked
    · cases (TablePath.child_inj.1 heq).2
  · intro hlinked
    exact h.linked parent name hlinked

/-- A join table has no alias before a relation is joined over it. -/
theorem Tidy.joinTable_unnamed {d : Draft s} (h : d.Tidy) {parent : TablePath} {name : String}
    (hparent : parent ∈ d.joined) (hlinked : ¬d.Linked parent name) :
    d.aliasAt? (parent.child (.joinTable name)) = none := by
  by_contra hsome
  exact hlinked ((h.joinTable_named_iff hparent name).1 (Option.ne_none_iff_exists'.1 hsome))

/-- The base of the sub-query at a place that is not joined has no alias. -/
theorem Tidy.nestedBase_unnamed {d : Draft s} (h : d.Tidy) {place : TablePath} {table : String}
    (hsteps : place.steps ≠ []) (hpath : place ∉ d.joined) :
    d.aliasAt? (place.child (.base table)) = none := by
  by_contra hsome
  rcases Option.ne_none_iff_exists'.1 hsome with ⟨a, ha⟩
  rcases h.accounted _ a ha with ⟨_, hq | ⟨_, _, heq, _⟩⟩ | ⟨_, _, heq, hq⟩
  · exact base_not_isHop (h.isHop hsteps hq)
  · cases (TablePath.child_inj.1 heq).2
  · rcases TablePath.child_inj.1 heq with ⟨rfl, _⟩
    exact hpath hq

/-! ## Joining -/

section

variable {d e : Draft s} {parent : TablePath} {name a : String} {owner : Model s}

/-- Once it is entered, a relation is reached if the first hops inside it are joined. -/
theorem Below.reached {r : Relation s} (below : d.Below parent name owner a)
    (found : owner.relation? name = some r)
    (he : d.Enters (parent.child (.relation name)) r.target e)
    (hleads : ∀ lead ∈ r.leads, parent.child (.relation lead.name) ∈ e.joined) :
    ∀ parent' name', parent.child (.relation name) = parent'.child (.relation name') →
      e.Reached parent' name' := by
  intro parent' name' heq
  rcases TablePath.child_inj.1 heq with ⟨rfl, hname⟩
  cases hname
  refine ⟨owner, r, he.mem_joined.2 (.inr below.joined), ?_, found, ?_, hleads⟩
  · rw [he.modelAt?_eq below.joined, below.typed]
  · rw [he.modelAt?, if_pos rfl]

/-- What is linked where a relation was entered is that relation. -/
theorem Below.linksOver_of_linked {target : Model s} (below : d.Below parent name owner a)
    (he : d.Enters (parent.child (.relation name)) target e) (h : e.Linked parent name) :
    owner.LinksOver name := by
  -- the model of the table is still the owner, so both speak of one relation
  rcases h with ⟨_, _, owner', howner, hlinks⟩
  rw [he.modelAt?_eq below.joined, below.typed] at howner
  cases howner
  exact hlinks

end

/-- The statement introduces the alias of a relation's path. -/
theorem Tidy.relation_scoped {d : Draft s} (h : d.Tidy) {parent : TablePath} {name a : String}
    (ha : d.aliasAt? (parent.child (.relation name)) = some a) : a ∈ d.scope := by
  rcases h.accounted _ a ha with ⟨hscope, _⟩ | ⟨_, _, heq, _⟩
  · exact hscope
  · cases (TablePath.child_inj.1 heq).2

/-- The statement introduces the alias of a join table. -/
theorem Tidy.joinTable_scoped {d : Draft s} (h : d.Tidy) {parent : TablePath} {name a : String}
    (ha : d.aliasAt? (parent.child (.joinTable name)) = some a) : a ∈ d.scope := by
  rcases h.accounted _ a ha with ⟨hscope, _⟩ | ⟨_, _, heq, _⟩
  · exact hscope
  · cases (TablePath.child_inj.1 heq).2

/-- Where the last hop of a through relation is joined, so are the first hops inside it. -/
theorem Tidy.first_leads_joined {d : Draft s} (h : d.Tidy) {parent : TablePath} {name : String}
    {owner : Model s} {definition : RelationDefinition} {first second : Relation s}
    (howner : d.modelAt? parent = some owner)
    (found : owner.relation? name = some (.through name owner definition first second))
    (joined : (parent.child (.relation first.name)).child (.relation second.name) ∈ d.joined) :
    ∀ lead ∈ first.leads, parent.child (.relation lead.name) ∈ d.joined := by
  -- the last hop is joined below the first, and the first together with its leads
  rcases h.reached _ _ joined with ⟨_, _, hfirst, _⟩
  rcases h.reached _ _ hfirst with ⟨owner', r, _, howner', hr, _, hleads⟩
  rw [howner] at howner'
  cases howner'
  have hresolved := (Model.relation?_resolved found).1
  cases hresolved with
  | through _ first_owner _ first_resolved _ =>
    have hself := first_resolved.found
    rw [first_owner, hr] at hself
    cases hself
    exact hleads

/-! ## Joining -/

section

variable {d : Draft s} {parent : TablePath} {name a : String} {owner target : Model s}
  {definition : RelationDefinition}

/-- A relation without a join table keeps the draft tidy. -/
theorem Tidy.joinSingle (h : d.Tidy) {link : Link} {leftKey key : String}
    (below : d.Below parent name owner a)
    (found : owner.relation? name = some (.direct name owner definition link target))
    (keys : ∀ joinTable foreignKey associationKey,
      link ≠ .manyToMany joinTable foreignKey associationKey) :
    ((d.introduce (parent.child (.relation name)) target.table ⟨a, leftKey⟩ key).markJoined
      (parent.child (.relation name)) target).Tidy := by
  have he : d.Enters (parent.child (.relation name)) target
      ((d.introduce (parent.child (.relation name)) target.table ⟨a, leftKey⟩ key).markJoined
        (parent.child (.relation name)) target) := below.enters_single
  refine h.enter he ⟨parent, name, .inl rfl⟩ ?_ (below.reached found he ?_) ?_
  · intro q b hb
    rw [aliasAt?_markJoined, aliasAt?_introduce] at hb
    split at hb
    · rename_i hq
      cases hb
      refine .inr (.inl ⟨?_, .inl (he.mem_joined.2 (.inl hq))⟩)
      rw [scope_markJoined, scope_introduce]
      exact List.mem_append_right _ (List.mem_singleton_self _)
    · exact .inl hb
  · intro lead hlead
    rw [Relation.leads, List.mem_singleton] at hlead
    subst hlead
    exact he.mem_joined.2 (.inl rfl)
  · -- no join table has to be named
    intro parent' name' heq hlinked
    rcases TablePath.child_inj.1 heq with ⟨rfl, hname⟩
    cases hname
    rcases below.linksOver_of_linked he hlinked with ⟨_, _, _, _, _, hlinks⟩
    rw [found] at hlinks
    cases hlinks
    exact absurd rfl (keys _ _ _)

/-- A relation with its join table keeps the draft tidy. -/
theorem Tidy.joinDouble (h : d.Tidy) {joinTable foreignKey associationKey : String}
    (below : d.Below parent name owner a)
    (found : owner.relation? name =
      some (.direct name owner definition (.manyToMany joinTable foreignKey associationKey) target))
    (unnamed : d.aliasAt? (parent.child (.joinTable name)) = none) :
    (((d.introduce (parent.child (.joinTable name)) joinTable ⟨a, owner.primaryKey⟩
      foreignKey).introduce (parent.child (.relation name)) target.table
      ⟨d.newAlias (parent.child (.joinTable name)), associationKey⟩ target.primaryKey).markJoined
      (parent.child (.relation name)) target).Tidy := by
  have he : d.Enters (parent.child (.relation name)) target
      (((d.introduce (parent.child (.joinTable name)) joinTable ⟨a, owner.primaryKey⟩
        foreignKey).introduce (parent.child (.relation name)) target.table
        ⟨d.newAlias (parent.child (.joinTable name)), associationKey⟩ target.primaryKey).markJoined
        (parent.child (.relation name)) target) :=
    below.enters_double unnamed
  refine h.enter he ⟨parent, name, .inl rfl⟩ ?_ (below.reached found he ?_) ?_
  · -- two aliases are new: that of the table, and that of the join table
    intro q b hb
    rw [aliasAt?_markJoined, aliasAt?_introduce, aliasAt?_introduce] at hb
    split at hb
    · rename_i hq
      cases hb
      refine .inr (.inl ⟨?_, .inl (he.mem_joined.2 (.inl hq))⟩)
      rw [scope_markJoined, scope_introduce]
      exact List.mem_append_right _ (List.mem_singleton_self _)
    · split at hb
      · rename_i hq
        cases hb
        refine .inr (.inl ⟨?_, .inr ⟨parent, name, hq, ?_⟩⟩)
        · rw [scope_markJoined, scope_introduce, scope_introduce]
          exact List.mem_append_left _ (List.mem_append_right _ (List.mem_singleton_self _))
        · refine ⟨he.mem_joined.2 (.inr below.joined), he.mem_joined.2 (.inl rfl), owner, ?_,
            ⟨_, _, _, _, _, found⟩⟩
          rw [he.modelAt?_eq below.joined, below.typed]
      · exact .inl hb
  · intro lead hlead
    rw [Relation.leads, List.mem_singleton] at hlead
    subst hlead
    exact he.mem_joined.2 (.inl rfl)
  · -- the join table of the relation is the one that is introduced here
    intro parent' name' heq _
    rcases TablePath.child_inj.1 heq with ⟨rfl, hname⟩
    cases hname
    refine ⟨d.newAlias (parent.child (.joinTable name)), ?_⟩
    rw [aliasAt?_markJoined, aliasAt?_introduce, if_neg (by simp [TablePath.child_inj]),
      aliasAt?_introduce, if_pos rfl]

/-- A through relation whose last hop is joined keeps the draft tidy. -/
theorem Tidy.joinThrough (h : d.Tidy) {b : String} {first second : Relation s}
    (below : d.Below parent name owner a)
    (found : owner.relation? name = some (.through name owner definition first second))
    (joined : (parent.child (.relation first.name)).child (.relation second.name) ∈ d.joined)
    (named : d.aliasAt? ((parent.child (.relation first.name)).child (.relation second.name)) =
      some b) :
    ((d.setAlias (parent.child (.relation name)) b).markJoined (parent.child (.relation name))
      second.target).Tidy := by
  have he : d.Enters (parent.child (.relation name)) second.target
      ((d.setAlias (parent.child (.relation name)) b).markJoined (parent.child (.relation name))
        second.target) := below.enters_through
  refine h.enter he ⟨parent, name, .inl rfl⟩ ?_ (below.reached found he ?_) ?_
  · -- the path takes over the alias of the last hop, which the statement has introduced
    intro q c hc
    rw [aliasAt?_markJoined, aliasAt?_setAlias] at hc
    split at hc
    · rename_i hq
      cases hc
      exact .inr (.inl ⟨h.relation_scoped named, .inl (he.mem_joined.2 (.inl hq))⟩)
    · exact .inl hc
  · intro lead hlead
    rw [Relation.leads, List.mem_cons] at hlead
    rcases hlead with rfl | hlead
    · exact he.mem_joined.2 (.inl rfl)
    · exact he.mem_joined.2 (.inr (h.first_leads_joined below.typed found joined lead hlead))
  · -- a through relation has no join table of its own
    intro parent' name' heq hlinked
    rcases TablePath.child_inj.1 heq with ⟨rfl, hname⟩
    cases hname
    rcases below.linksOver_of_linked he hlinked with ⟨_, _, _, _, _, hlinks⟩
    rw [found] at hlinks
    cases hlinks

end

/-- Joining keeps a draft tidy, step by step. -/
theorem JoinStep.tidy {d e : Draft s} (h : JoinStep d e) (hd : d.Tidy) : e.Tidy := by
  cases h with
  | single below found keys =>
    refine hd.joinSingle below found ?_
    rintro joinTable foreignKey associationKey rfl
    rcases keys with ⟨hlink, _⟩ | ⟨hlink, _⟩ <;> cases hlink
  | double below found unnamed => exact hd.joinDouble below found unnamed
  | through below found joined named => exact hd.joinThrough below found joined named

/-- Joining keeps a draft tidy. -/
theorem Joins.tidy {d e : Draft s} (h : Joins d e) (hd : d.Tidy) : e.Tidy := by
  induction h with
  | refl => exact hd
  | tail _ step ih => exact step.tidy ih

end Draft

end DocQuery
