import DocQuery.Proofs.Build.Fail
import DocQuery.Proofs.Build.Follow
import DocQuery.Proofs.Build.Where
import DocQuery.Proofs.Condition.Follows

namespace DocQuery

/-! # What a build refuses

A build has branches for paths that lead nowhere, for columns that do not exist and for sub-queries
over relations with hops. What is checked when conditions are read closes them: a step that joins,
orders or ties a sub-query to its parent fails only over a relation of a kind that cannot be joined.

* `unknown_of_fails_correlate`: tying a sub-query to its parent fails over an unknown kind only.
* `fails_derivedJoin`: a derived join fails in its sub-query, in its correlation or on its row.
-/

open Build

variable {s : Schema}

/-- The error is that a part of the relation is of a kind that cannot be joined. -/
def Relation.Refuses (r : Relation s) (e : Error) : Prop :=
  ∃ part ∈ r.parts, ∃ kind, part.kind = .unknown kind ∧
    e = .unknownRelationKind part.owner.name part.name kind

/-- The errors of a build that follows the relations. -/
inductive Refusal (followed : List (Relation s)) : Error → Prop where
  /-- A function of the whole query stands at another table than that of its root. -/
  | function (function : FunctionName) {table : TablePath} (below : table.isRoot = false) :
      Refusal followed (.functionBelowRoot function.text table.text)
  /-- A relation that is followed cannot be joined. -/
  | relation {r : Relation s} {e : Error} (mem : r ∈ followed) (refuses : r.Refuses e) :
      Refusal followed e

theorem Refusal.mono {followed followed' : List (Relation s)} {e : Error}
    (h : Refusal followed e) (hsub : followed ⊆ followed') : Refusal followed' e := by
  cases h with
  | function f below => exact .function f below
  | relation mem refuses => exact .relation (hsub mem) refuses

theorem Relation.Refuses.through {name : String} {owner : Model s} {definition : RelationDefinition}
    {first second r : Relation s} {e : Error} (h : r.Refuses e) (hmem : r = first ∨ r = second) :
    (Relation.through name owner definition first second).Refuses e := by
  rcases h with ⟨part, hpart, hkind⟩
  refine ⟨part, ?_, hkind⟩
  rw [parts, List.mem_cons, List.mem_append]
  rcases hmem with rfl | rfl
  · exact .inr (.inl hpart)
  · exact .inr (.inr hpart)

namespace Draft

variable {d : Draft s} {table parent : TablePath} {m n : Model s} {path walked : List String}
  {e : Error}

/-! ## Relations -/

/-- A link fails only if its kind is unknown. -/
theorem unknown_of_fails_joinLink {path : TablePath} {a name : String} {owner target : Model s}
    {link : Link} (h : (joinLink parent path a name owner target link).Fails d e) :
    ∃ kind, link = .unknown kind ∧ e = .unknownRelationKind owner.name name kind := by
  cases link with
  | hasMany foreignKey => simp [joinLink] at h
  | belongsTo foreignKey => simp [joinLink] at h
  | manyToMany joinTable foreignKey associationKey => simp [joinLink] at h
  | unknown kind =>
    rw [joinLink, fails_throw] at h
    exact ⟨kind, rfl, h.symm⟩

/-- A relation of an unknown kind is refused. -/
theorem refuses_unknown {name kind : String} {owner target : Model s} {definition : RelationDefinition}
    (found : owner.relation? name = some (.direct name owner definition (.unknown kind) target)) :
    (Relation.direct name owner definition (.unknown kind) target).Refuses
      (.unknownRelationKind owner.name name kind) :=
  ⟨_, Relation.mem_parts_self _, kind, Relation.kind_eq_unknown found, rfl⟩

/-- What is joined already is not refused. -/
theorem fails_unless_joined {path : TablePath} {step : Build s Unit}
    (h : Build.Fails (do
      if (← get).isJoined path then return
      step) d e) : step.Fails d e := by
  simp only [fails_bind, fails_get, false_or, runs_get] at h
  rcases h with ⟨_, _, ⟨rfl, rfl⟩, h⟩
  split at h
  · exact absurd h fails_pure
  · exact h

/-- A direct relation fails to be joined only if its kind is unknown. -/
theorem Tidy.unknown_of_fails_join (h : d.Tidy) (hparent : parent ∈ d.joined) {name : String}
    {owner target : Model s} {definition : RelationDefinition} {link : Link}
    (hfail : (join (.direct name owner definition link target)
      (parent.child (.relation name))).Fails d e) :
    ∃ kind, link = .unknown kind ∧ e = .unknownRelationKind owner.name name kind := by
  unfold join at hfail
  have hstep := fails_unless_joined hfail
  rw [h.parent?_child hparent] at hstep
  simp only [fails_bind, fails_modifyGet, fails_modify, false_or, or_false, runs_modifyGet,
    and_false, exists_false] at hstep
  rcases hstep with ⟨_, _, ⟨rfl, rfl⟩, hlink⟩
  exact unknown_of_fails_joinLink hlink

/-- A relation of two hops fails to be joined in the first, or in the second below the first. -/
theorem Tidy.fails_join_through (h : d.Tidy) (hparent : parent ∈ d.joined) {name : String}
    {owner : Model s} {definition : RelationDefinition} {first second : Relation s}
    (resolved : first.Resolved) (howner : d.modelAt? parent = some first.owner)
    (hsecond : second.owner = first.target)
    (hfail : (join (.through name owner definition first second)
      (parent.child (.relation name))).Fails d e) :
    (join first (parent.child (.relation first.name))).Fails d e ∨
      ∃ d₁, JoinsRelation first parent d d₁ ∧
        d₁.modelAt? (parent.child (.relation first.name)) = some second.owner ∧
        (join second ((parent.child (.relation first.name)).child (.relation second.name))).Fails
          d₁ e := by
  unfold join at hfail
  have hstep := fails_unless_joined hfail
  rcases h.aliasOf_joined hparent with ⟨_, _, halias⟩
  rw [h.parent?_child hparent] at hstep
  simp only [fails_bind, fails_modifyGet, fails_modify, false_or, or_false, runs_modifyGet,
    and_false, exists_false, halias] at hstep
  rcases hstep with ⟨_, _, ⟨rfl, rfl⟩, hfirst | ⟨_, d₁, hrun, hfail⟩⟩
  · exact .inl hfirst
  · have hjoins := h.runs_join resolved hparent howner hrun
    have htyped : d₁.modelAt? (parent.child (.relation first.name)) = some second.owner := by
      rw [hsecond]
      exact hjoins.typed
    exact .inr ⟨d₁, hjoins, htyped, hfail⟩

/-- Joining a resolved relation fails only if a part of it is of a kind that cannot be joined. -/
theorem Tidy.fails_join (h : d.Tidy) {r : Relation s} (hr : r.Resolved) (hparent : parent ∈ d.joined)
    (howner : d.modelAt? parent = some r.owner)
    (hfail : (join r (parent.child (.relation r.name))).Fails d e) : r.Refuses e := by
  induction hr generalizing d parent with
  | direct found =>
    rcases h.unknown_of_fails_join hparent hfail with ⟨kind, rfl, rfl⟩
    exact refuses_unknown found
  | through found first_owner second_owner first_resolved second_resolved ihFirst ihSecond =>
    have hfirstOwner := howner.trans (congrArg some first_owner.symm)
    rcases h.fails_join_through hparent first_resolved hfirstOwner second_owner hfail with
      hfirst | ⟨d₁, hjoins, htyped, hsecond⟩
    · exact (ihFirst h hparent hfirstOwner hfirst).through (.inl rfl)
    · exact (ihSecond (hjoins.joins.tidy h) hjoins.mem htyped hsecond).through (.inr rfl)

/-- Joining the hops of an open path fails only over a relation on it. -/
theorem Tidy.fails_joinHops (h : d.Tidy) (hopen : OpenPath m path n)
    (hmem : table.join walked ∈ d.joined) (htyped : d.modelAt? (table.join walked) = some m)
    (hfail : (joinHops table (Column.hopsFrom m walked path).1).Fails d e) :
    Refusal (m.follows path) e := by
  induction hopen generalizing d walked with
  | here m => exact absurd hfail fails_pure
  | @step m n name path r shown found rest ih =>
    rcases Model.relation?_resolved found with ⟨hresolved, howner, rfl⟩
    have hpath : table.join (walked ++ [r.name]) = (table.join walked).child (.relation r.name) := by
      rw [TablePath.join_append, TablePath.join_singleton]
    have hfollows : m.follows (r.name :: path) = r :: r.target.follows path := by
      simp only [Model.follows, found]
    have htyped' : d.modelAt? (table.join walked) = some r.owner := by
      rw [howner]
      exact htyped
    simp only [Column.hopsFrom, found, joinHops, fails_bind, hpath] at hfail
    rw [hfollows]
    rcases hfail with hjoin | ⟨_, d₁, hjoin, hrest⟩
    · exact .relation List.mem_cons_self (h.fails_join hresolved hmem htyped' hjoin)
    · -- the hop has been joined, so the failure is further down the path
      have hrelation := h.runs_join hresolved hmem htyped' hjoin
      have hrefused := ih (hrelation.joins.tidy h) (hpath ▸ hrelation.mem) (hpath ▸ hrelation.typed)
        hrest
      exact hrefused.mono (List.subset_cons_self _ _)

theorem Ready.fails_joinHops (h : d.Ready table m) (hopen : OpenPath m path n)
    (hfail : (joinHops table (Column.hopsFrom m [] path).1).Fails d e) :
    Refusal (m.follows path) e := by
  have hself : table.join [] = table := TablePath.join_nil table
  exact h.tidy.fails_joinHops hopen (hself.symm ▸ h.mem) (hself.symm ▸ h.typed) hfail

/-- Joining the way to a column fails only over a relation on it. -/
theorem Ready.fails_joinColumn (h : d.Ready table m) {c : Column s} (hmodel : c.model = m)
    (hopen : OpenPath m c.path n) (hfail : (joinColumn table c).Fails d e) :
    Refusal (m.follows c.path) e := by
  subst hmodel
  have hnone := Column.hopsFrom_of_openPath hopen []
  have hhops : ∀ e, (joinHops table (Column.hopsFrom c.model [] c.path).1).Fails d e →
      Refusal (c.model.follows c.path) e := fun e he => h.fails_joinHops hopen he
  unfold joinColumn Column.hops at hfail
  generalize Column.hopsFrom c.model [] c.path = hops at hnone hhops hfail
  -- the path is open, so the branch for a hop in error is not taken
  rcases hops with ⟨hops, error⟩
  cases hnone
  simp only [fails_bind, fails_pure, and_false, exists_false, or_false] at hfail
  exact hhops e hfail

end Draft

namespace Condition

open Draft

variable {d : Draft s} {table : TablePath} {m n : Model s} {e : Error}

/-! ## Columns -/

theorem fails_joinColumns (h : d.Ready table m) {columns : List (Column s)}
    (hreached : ∀ c ∈ columns, c.LeadsToColumn m) (hfail : (joinColumns table columns).Fails d e) :
    Refusal (columns.flatMap fun c => c.model.follows c.path) e := by
  induction columns generalizing d with
  | nil => exact absurd hfail fails_pure
  | cons c columns ih =>
    have hrest := fun c' hc' => hreached c' (List.mem_cons_of_mem c hc')
    rcases hreached c List.mem_cons_self with ⟨rfl, n, name, hopen, _⟩
    simp only [joinColumns, fails_bind, fails_modifyGet, fails_pure, and_false, exists_false,
      or_false, false_or, runs_modifyGet] at hfail
    rw [List.flatMap_cons]
    rcases hfail with hcolumn | ⟨path, d₁, hcolumn, _, _, ⟨rfl, rfl⟩, hcolumns⟩
    · exact (h.fails_joinColumn rfl hopen hcolumn).mono (List.subset_append_left _ _)
    · -- the column has been joined, and a later one is refused
      rcases h.tidy.runs_joinColumn rfl hopen h.mem h.typed hcolumn with ⟨rfl, hfollow⟩
      have hready := h.grow hfollow.joins.grows
      rcases hready.tidy.columnAt_joined hfollow.mem (c.name.getD "") with ⟨a, _, hqualified⟩
      rw [hqualified] at hcolumns
      exact (ih hready hrest hcolumns).mono (List.subset_append_right _ _)

/-- Following a column to rows fails only over a relation on the way. -/
theorem fails_joinRelation (h : d.Ready table m) {c : Column s} (hrows : c.LeadsToRows m n)
    (hfail : (joinRelation table c).Fails d e) : Refusal (c.model.follows c.segments) e := by
  unfold joinRelation at hfail
  rw [fails_bind] at hfail
  rcases hrows with ⟨⟨rfl, hpath, hname⟩, rfl⟩ | ⟨r, hr, rfl⟩
  · -- the column stands for the model itself: nothing is followed
    have hopen : OpenPath c.model c.path c.model := hpath ▸ .here c.model
    have hsegments : c.segments = c.path := by
      simp [Column.segments, hname]
    simp only [hname, fails_pure, and_false, exists_false, or_false] at hfail
    rw [hsegments]
    exact h.fails_joinColumn rfl hopen hfail
  · have hrelation := hr.relation?_eq
    rcases hr with ⟨rfl, k, name, hopen, hname, _, hfound⟩
    rcases Model.relation?_resolved hfound with ⟨hresolved, howner, rfl⟩
    have hsegments : c.segments = c.path ++ [r.name] := by
      simp [Column.segments, hname]
    have hfollows : c.model.follows c.segments = c.model.follows c.path ++ [r] := by
      rw [hsegments, Model.follows_append hopen]
      simp only [Model.follows, hfound]
    simp only [hname, hrelation, fails_bind, fails_pure, and_false, exists_false, or_false] at hfail
    rw [hfollows]
    rcases hfail with hcolumn | ⟨path, d₁, hcolumn, hjoin⟩
    · exact (h.fails_joinColumn rfl hopen hcolumn).mono (List.subset_append_left _ _)
    · -- the way has been joined, and the relation at its end is refused
      rcases h.tidy.runs_joinColumn rfl hopen h.mem h.typed hcolumn with ⟨rfl, hfollow⟩
      have htyped : d₁.modelAt? (table.join c.path) = some r.owner := by
        rw [howner]
        exact hfollow.typed
      exact .relation (by simp)
        ((hfollow.joins.tidy h.tidy).fails_join hresolved hfollow.mem htyped hjoin)

theorem fails_orderBy (h : d.Ready table m) {entries : List (Column s × Direction)}
    (hreached : ∀ e ∈ entries, e.1.LeadsToColumn m) (hfail : (orderBy table entries).Fails d e) :
    Refusal (entries.flatMap fun e => e.1.model.follows e.1.path) e := by
  induction entries generalizing d with
  | nil => exact absurd hfail fails_pure
  | cons entry entries ih =>
    rcases entry with ⟨c, direction⟩
    have hrest := fun e he => hreached e (List.mem_cons_of_mem (c, direction) he)
    rcases hreached (c, direction) List.mem_cons_self with ⟨rfl, n, name, hopen, _⟩
    simp only [orderBy, fails_bind, fails_modify, false_or, runs_modify] at hfail
    rw [List.flatMap_cons]
    -- the column's path is refused, or a later entry's, on a draft with one more clause
    rcases hfail with hcolumn | ⟨path, d₁, hcolumn, _, _, rfl, hentries⟩
    · exact (h.fails_joinColumn rfl hopen hcolumn).mono (List.subset_append_left _ _)
    · rcases h.tidy.runs_joinColumn rfl hopen h.mem h.typed hcolumn with ⟨rfl, hfollow⟩
      rcases (hfollow.joins.tidy h.tidy).named _ hfollow.mem with ⟨a, ha⟩
      have horder : Grows [] d₁ (d₁.addOrder (table.join c.path) (c.name.getD "") direction) :=
        .clause (.order hfollow.mem ha _ _)
      exact (ih ((h.grow hfollow.joins.grows).grow horder) hrest hentries).mono
        (List.subset_append_right _ _)

theorem fails_includeHops {hops : List (Hop s)} : ¬(includeHops table hops).Fails d e := by
  induction hops generalizing d with
  | nil => exact fails_pure
  | cons hop hops ih =>
    simp only [includeHops, fails_bind, fails_modify, false_or, runs_modify]
    rintro ⟨_, _, rfl, hrest⟩
    exact ih hrest

/-- A relation that exists can always be asked for. -/
theorem fails_includeRelation {c : Column s} {r : Relation s} (hr : c.LeadsToRelation m r) :
    ¬(includeRelation table c).Fails d e := by
  rcases hr with ⟨rfl, k, name, hopen, _⟩
  have hnone := Column.hopsFrom_of_openPath hopen []
  unfold includeRelation Column.hops
  generalize Column.hopsFrom c.model [] c.path = hops at hnone ⊢
  rcases hops with ⟨hops, error⟩
  cases hnone
  simp only [fails_bind, fails_includeHops, fails_modify, and_false, exists_false, or_false,
    not_false_eq_true]

/-- A step for the root fails below it, or as it does there. -/
theorem fails_atRoot {followed : List (Relation s)} {function : FunctionName} {step : Build s Unit}
    (hstep : step.Fails d e → Refusal followed e) (hfail : (atRoot function table step).Fails d e) :
    Refusal followed e := by
  unfold atRoot at hfail
  split at hfail
  · exact hstep hfail
  · rename_i hbelow
    rw [fails_throw] at hfail
    subst hfail
    exact .function function (Bool.eq_false_iff.2 hbelow)

/-! ## Sub-queries -/

/-- A sub-query over a relation with a link fails to be tied to its parent only if the kind of the
link is unknown. -/
theorem unknown_of_fails_correlate {name a : String} {owner target : Model s}
    {definition : RelationDefinition} {link : Link}
    (h : (correlate (.direct name owner definition link target) a).Fails d e) :
    ∃ kind, link = .unknown kind ∧ e = .unknownRelationKind owner.name name kind := by
  cases link with
  | hasMany | belongsTo | manyToMany =>
    simp only [correlate, correlation, fails_bind, fails_get, fails_modifyGet, fails_modify, fails_pure,
      or_false, and_false, exists_false] at h
  | unknown kind =>
    simp only [correlate, correlation, fails_bind, fails_get, fails_modify, fails_throw, false_or,
      or_false, and_false, exists_false] at h
    rcases h with ⟨_, _, _, herror⟩
    exact ⟨kind, rfl, herror.symm⟩

/-- Tying a sub-query to its parent fails only over a relation of a kind that cannot be joined. -/
theorem fails_correlate {r : Relation s} {a : String} (hr : r.Resolved) (direct : r.hops? = none)
    (hfail : (correlate r a).Fails d e) : r.Refuses e := by
  cases hr with
  | through found => cases direct
  | direct found =>
    rcases unknown_of_fails_correlate hfail with ⟨kind, rfl, rfl⟩
    exact refuses_unknown found

/-- A sub-query fails in its own draft, or once it is built where it is tied to its parent, or once
it is embedded in the conditions on its row. -/
theorem fails_derivedJoin {column : Column s} {relation : Relation s}
    {subquery conditions : List (Condition s)} (h : d.Ready table relation.owner)
    (hfail : (build (.derivedJoin column relation subquery conditions) table).Fails d e) :
    (buildEach subquery (.root relation.target.table)).Fails
        (d.nestedDraft (derivedPath d table relation.name) relation.target) e ∨
      ∃ a trees built, d.aliasAt? table = some a ∧
        (buildEach subquery (.root relation.target.table)).Runs
          (d.nestedDraft (derivedPath d table relation.name) relation.target) trees built ∧
        ((correlate relation a).Fails (built.pushWhere (.all trees)) e ∨
          ∃ done, (correlate relation a).Runs (built.pushWhere (.all trees)) () done ∧
            (buildEach conditions (derivedPath d table relation.name)).Fails
              (d.embed (derivedPath d table relation.name) relation.target done) e) := by
  rcases h.tidy.aliasOf_joined h.mem with ⟨a, ha, halias⟩
  have hplace := place_derivedPath h.mem relation.name
  have hopen := h.tidy.openNested_eq hplace relation.target
  have hjoined := h.tidy.joinDerived_eq hplace relation.target
  simp only [build, fails_bind, fails_get, fails_modifyGet, fails_modify, fails_within, fails_pure,
    runs_get, runs_modifyGet, runs_modify, runs_within, runs_bind, false_or, and_false, exists_false,
    or_false] at hfail
  rcases hfail with ⟨_, _, ⟨rfl, rfl⟩, hfail⟩
  simp only [halias] at hfail
  rcases hfail with ⟨_, _, ⟨rfl, rfl⟩, _, _, ⟨rfl, rfl⟩, hfail⟩
  rw [hopen] at hfail
  -- the sub-query itself, its correlation, or the conditions on its row
  rcases hfail with (hsub | ⟨trees, built, hsub, _, _, rfl, hcorrelate⟩) |
    ⟨⟨_, done⟩, _, ⟨⟨trees, built, hsub, _, _, rfl, hcorrelate⟩, rfl⟩, _, _, rfl, _, _, rfl, hnested⟩
  · exact .inl hsub
  · exact .inr ⟨a, trees, built, ha, hsub, .inl hcorrelate⟩
  · simp only [hjoined] at hnested
    exact .inr ⟨a, trees, built, ha, hsub, .inr ⟨done, hcorrelate, hnested⟩⟩

end Condition

end DocQuery
