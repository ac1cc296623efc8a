import DocQuery.Proofs.Build.Follow
import DocQuery.Proofs.Draft.Alike

namespace DocQuery

/-! # Runs on drafts alike

On drafts alike a step does alike. Joining a through relation is joining its hops, after which its
path stands for the table of the second; so wherever a run joins the relation, a run on a draft
alike may join its hops and no more.

* `joinsAlike`: on drafts alike a relation is joined alike, a through relation by its hops.
* `Twins.runs_followPath`: so is every path.
-/

open Build

variable {s : Schema}

namespace Draft

variable {d d' e e' : Draft s} {table parent : TablePath} {m n : Model s}

/-! ## Bridged drafts -/

/-- What leaves the tables alone leaves them bridged. -/
theorem SameTables.bridged (h : SameTables d e) (hd : d.Bridged) : e.Bridged := by
  intro parent name owner definition first second hpath htyped hfound
  have haliases : e.aliases = d.aliases := by rw [h]
  have hmodels : e.models = d.models := by rw [h]
  have hjoined : e.joined = d.joined := by rw [h]
  rw [hjoined] at hpath
  rw [modelAt?, hmodels] at htyped
  rcases hd _ _ _ _ _ _ hpath htyped hfound with ⟨a, hspans, hnamed⟩
  refine ⟨a, hspans.congr haliases hmodels hjoined, ?_⟩
  rw [aliasAt?, haliases]
  exact hnamed

/-- A growing draft stays bridged. -/
theorem Grows.bridged {subqueries : List (Relation s × List (Condition s))} (h : Grows subqueries d e)
    (hd : d.Tidy) (hb : d.Bridged) : e.Bridged := by
  induction h with
  | refl d => exact hb
  | trans first _ ihFirst ihSecond => exact ihSecond (first.tidy_steady hd).1 (ihFirst hd hb)
  | join step => exact step.bridged hd hb
  | clause step => exact step.sameTables.bridged hb
  | embed at_table typed named resolved inner spreads tree_eq correlates _ =>
    exact hb.embed hd at_table _ _

/-! ## Through relations -/

section Through

variable {name : String} {owner : Model s} {definition : RelationDefinition} {first second : Relation s}
  {d₁ d₂ : Draft s}

/-- The hops of a through relation have been joined one below the other, and its path spans the
second. -/
structure JoinsHops (name : String) (first second : Relation s) (owner : Model s) (parent : TablePath)
    (d e : Draft s) : Prop where
  ready : e.Ready parent owner
  spans : ∃ a, e.Spans (parent.child (.relation name)) a second.target
  unjoined : parent.child (.relation name) ∉ d.joined → parent.child (.relation name) ∉ e.joined

theorem Ready.runs_hops (h : d.Ready parent owner)
    (hr : (Relation.through name owner definition first second).Resolved)
    (hfirst : (join first (parent.child (.relation first.name))).Runs d () d₁)
    (hsecond : (join second ((parent.child (.relation first.name)).child (.relation second.name))).Runs
      d₁ () d₂) : JoinsHops name first second owner parent d d₂ := by
  have hresolved := hr
  cases hr with
  | through found first_owner second_owner first_resolved second_resolved =>
    have h₁ := h.tidy.runs_join first_resolved h.mem (first_owner ▸ h.typed) hfirst
    have h₂ := (h₁.joins.tidy h.tidy).runs_join second_resolved h₁.mem (second_owner ▸ h₁.typed) hsecond
    have hjoins : Joins d d₂ := h₁.joins.trans h₂.joins
    have hready : d₂.Ready parent owner := h.grow hjoins.grows
    rcases hready.tidy.named _ h₂.mem with ⟨a, ha⟩
    exact ⟨hready, ⟨a, .through hready.mem hready.typed found h₂.mem ha rfl⟩,
      h₁.path_unjoined h₂ hresolved⟩

/-- Joining a through relation is joining its hops and letting its path stand for the table of the
second. -/
theorem Ready.runs_join_through_iff (h : d.Ready parent owner) (hb : d.Bridged)
    (hr : (Relation.through name owner definition first second).Resolved) {u : Unit} :
    (join (.through name owner definition first second) (parent.child (.relation name))).Runs d u e ↔
      ∃ d₁ d₂ a, (join first (parent.child (.relation first.name))).Runs d () d₁ ∧
        (join second ((parent.child (.relation first.name)).child (.relation second.name))).Runs
          d₁ () d₂ ∧
        d₂.Spans (parent.child (.relation name)) a second.target ∧
        e = d₂.bridge (parent.child (.relation name)) a second.target := by
  by_cases hpath : parent.child (.relation name) ∈ d.joined
  · -- the hops are joined too, so there is nothing left to join
    rcases hb.hops_joined h.tidy hpath h.typed hr.found with ⟨hfirst, hsecond⟩
    rcases hb _ _ _ _ _ _ hpath h.typed hr.found with ⟨a, hspans, _⟩
    have hbridge : ∀ b, d.bridge (parent.child (.relation name)) b second.target = d := by
      intro b
      rw [bridge, if_pos hpath]
    rw [runs_join_joined hpath]
    constructor
    · rintro rfl
      exact ⟨d, d, a, (runs_join_joined hfirst).2 rfl, (runs_join_joined hsecond).2 rfl, hspans,
        (hbridge a).symm⟩
    · rintro ⟨d₁, d₂, b, hjoin, hjoin', _, rfl⟩
      rw [runs_join_joined hfirst] at hjoin
      subst hjoin
      rw [runs_join_joined hsecond] at hjoin'
      subst hjoin'
      exact (hbridge b).symm
  · rcases h.tidy.aliasOf_joined h.mem with ⟨_, _, hparent⟩
    have hunjoined : ¬d.isJoined (parent.child (.relation name)) = true := by
      rw [isJoined, decide_eq_true_eq]
      exact hpath
    -- the alias of the second hop is there once the hops are joined
    have hbridge : ∀ {d₁ d₂ a}, (join first (parent.child (.relation first.name))).Runs d () d₁ →
        (join second ((parent.child (.relation first.name)).child (.relation second.name))).Runs d₁ ()
          d₂ → d₂.Spans (parent.child (.relation name)) a second.target →
        d₂.aliasOf ((parent.child (.relation first.name)).child (.relation second.name)) = (a, d₂) ∧
          d₂.bridge (parent.child (.relation name)) a second.target =
            (d₂.setAlias (parent.child (.relation name)) a).markJoined (parent.child (.relation name))
              second.target := by
      intro d₁ d₂ a hfirst hsecond hspans
      have hhops := h.runs_hops hr hfirst hsecond
      rcases hspans.found hhops.ready.typed hr.found with ⟨_, _, _, hthrough, _, _, ha⟩
      cases hthrough
      exact ⟨aliasOf_of_some ha, by rw [bridge, if_neg (hhops.unjoined hpath)]⟩
    rw [join, h.tidy.parent?_child h.mem]
    simp only [runs_bind, runs_get]
    constructor
    · rintro ⟨_, _, ⟨rfl, rfl⟩, hrun⟩
      rw [if_neg hunjoined] at hrun
      simp only [runs_bind, runs_modifyGet, runs_modify, hparent] at hrun
      rcases hrun with
          ⟨_, _, ⟨rfl, rfl⟩, _, d₁, hfirst, _, d₂, hsecond, _, _, ⟨rfl, rfl⟩, _, _, rfl, rfl⟩
      rcases (h.runs_hops hr hfirst hsecond).spans with ⟨a, hspans⟩
      rcases hbridge hfirst hsecond hspans with ⟨halias, hsame⟩
      refine ⟨d₁, d₂, a, hfirst, hsecond, hspans, ?_⟩
      rw [halias, hsame]
    · rintro ⟨d₁, d₂, a, hfirst, hsecond, hspans, rfl⟩
      rcases hbridge hfirst hsecond hspans with ⟨halias, hsame⟩
      refine ⟨d, d, ⟨rfl, rfl⟩, ?_⟩
      rw [if_neg hunjoined]
      simp only [runs_bind, runs_modifyGet, runs_modify, hparent]
      refine ⟨_, d, ⟨rfl, rfl⟩, (), d₁, hfirst, (), d₂, hsecond, a, d₂, ?_, (), _, rfl, ?_⟩
      · rw [halias]
        exact ⟨rfl, rfl⟩
      · exact hsame.symm

end Through

/-! ## Twins -/

/-- Conditions on the model can be built at the table of both drafts, which are alike. -/
structure Twins (table : TablePath) (m : Model s) (d d' : Draft s) : Prop where
  alike : d.Alike d'
  ready : d.Ready table m
  ready' : d'.Ready table m
  bridged : d.Bridged
  bridged' : d'.Bridged

/-- The draft has grown, and conditions can still be built. -/
structure Grown (d e : Draft s) : Prop where
  steady : d.Steady e
  tidy : e.Tidy
  bridged : e.Bridged

/-- Both drafts have grown, to drafts alike. -/
structure GrowAlike (d d' e e' : Draft s) : Prop where
  alike : e.Alike e'
  grown : d.Grown e
  grown' : d'.Grown e'

theorem Grows.grown {subqueries : List (Relation s × List (Condition s))} (h : Grows subqueries d e)
    (hd : d.Tidy) (hb : d.Bridged) : d.Grown e := by
  rcases h.tidy_steady hd with ⟨htidy, hsteady⟩
  exact ⟨hsteady, htidy, h.bridged hd hb⟩

theorem Grown.ready (h : d.Grown e) (hready : d.Ready table m) : e.Ready table m :=
  ⟨h.tidy, h.steady.joined table hready.mem,
    (h.steady.models table hready.mem).trans hready.typed⟩

theorem Twins.of_ready (h : d.Ready table m) (hb : d.Bridged) : Twins table m d d :=
  ⟨.refl d, h, h, hb, hb⟩

namespace GrowAlike

theorem refl (h : Twins table m d d') : GrowAlike d d' d d' :=
  ⟨h.alike, ⟨.refl d, h.ready.tidy, h.bridged⟩, .refl d', h.ready'.tidy, h.bridged'⟩

theorem symm (h : GrowAlike d d' e e') : GrowAlike d' d e' e :=
  ⟨h.alike.symm, h.grown', h.grown⟩

theorem trans {f f' : Draft s} (h : GrowAlike d d' e e') (h' : GrowAlike e e' f f') :
    GrowAlike d d' f f' where
  alike := h'.alike
  grown := ⟨h.grown.steady.trans h'.grown.steady, h'.grown.tidy, h'.grown.bridged⟩
  grown' := ⟨h.grown'.steady.trans h'.grown'.steady, h'.grown'.tidy, h'.grown'.bridged⟩

/-- Drafts that have grown to drafts alike. -/
theorem of_grows {subqueries subqueries' : List (Relation s × List (Condition s))}
    (h : Twins table m d d') (halike : e.Alike e') (hgrows : Grows subqueries d e)
    (hgrows' : Grows subqueries' d' e') : GrowAlike d d' e e' :=
  ⟨halike, hgrows.grown h.ready.tidy h.bridged, hgrows'.grown h.ready'.tidy h.bridged'⟩

/-- What could be built on before can be built on still. -/
theorem twins (h : GrowAlike d d' e e') (ht : Twins table m d d') : Twins table m e e' :=
  ⟨h.alike, h.grown.ready ht.ready, h.grown'.ready ht.ready', h.grown.bridged, h.grown'.bridged⟩

/-- Conditions can be built at a table that both have joined on the way. -/
theorem twins_at (h : GrowAlike d d' e e') {inner : TablePath} (hready : e.Ready inner n)
    (hready' : e'.Ready inner n) : Twins inner n e e' :=
  ⟨h.alike, hready, hready', h.grown.bridged, h.grown'.bridged⟩

end GrowAlike

/-- A table that both drafts have joined has one alias. -/
theorem Twins.aliasAt?_joined (h : Twins table m d d') :
    ∃ a, d.aliasAt? table = some a ∧ d'.aliasAt? table = some a := by
  rcases h.ready.tidy.named _ h.ready.mem with ⟨a, ha⟩
  refine ⟨a, ha, ?_⟩
  rw [h.alike.aliasAt?_joined h.bridged h.bridged' h.ready.mem h.ready'.mem, ha]

/-- Both drafts take in the same sub-query at the path of its derived table. -/
theorem growAlike_embed (h : Twins table m d d') (relation : String) (model : Model s)
    (done : Draft s) :
    GrowAlike d d' (d.embed (derivedPath d table relation) model done)
      (d'.embed (derivedPath d table relation) model done) ∧
    Twins (derivedPath d table relation) model (d.embed (derivedPath d table relation) model done)
      (d'.embed (derivedPath d table relation) model done) := by
  have hgrown : ∀ {d : Draft s} {place : TablePath}, d.Tidy → d.Bridged → d.Place table place →
      d.Grown (d.embed place model done) := by
    intro d place hd hb hplace
    exact ⟨(hd.enters_embed hplace model done).steady rfl rfl rfl (Nat.le_max_left _ _),
      hd.embed hplace done, hb.embed hd hplace model done⟩
  -- both drafts take the same path for the derived table
  have hplace := place_derivedPath h.ready.mem relation
  have hready := h.ready.embed relation model done
  have hplace' := place_derivedPath h.ready'.mem relation
  have hready' := h.ready'.embed relation model done
  rw [h.alike.derivedPath_eq] at hplace' hready'
  have hgrow : GrowAlike d d' (d.embed (derivedPath d table relation) model done)
      (d'.embed (derivedPath d table relation) model done) :=
    ⟨h.alike.embed h.ready.tidy h.ready'.tidy hplace hplace' model done,
      hgrown h.ready.tidy h.bridged hplace, hgrown h.ready'.tidy h.bridged' hplace'⟩
  exact ⟨hgrow, hgrow.twins_at hready hready'⟩

/-! ## Joining on drafts alike -/

/-- A direct relation whose path both drafts lack is joined alike. -/
theorem Twins.runs_joinLink (h : Twins parent m d d') {name a : String} {target : Model s}
    {link : Link} (below : d.Below parent name m a) (below' : d'.Below parent name m a) {u : Unit}
    (hrun : (joinLink parent (parent.child (.relation name)) a name m target link).Runs d u e) :
    ∃ e', (joinLink parent (parent.child (.relation name)) a name m target link).Runs d' u e' ∧
      (e.markJoined (parent.child (.relation name)) target).Alike
        (e'.markJoined (parent.child (.relation name)) target) := by
  cases link with
  | hasMany foreignKey =>
    rcases (below.runs_joinLink_single rfl).unique hrun with ⟨_, rfl⟩
    exact ⟨_, below'.runs_joinLink_single rfl,
      h.alike.joinSingle below below' target ⟨a, m.primaryKey⟩ foreignKey⟩
  | belongsTo foreignKey =>
    rcases (below.runs_joinLink_single rfl).unique hrun with ⟨_, rfl⟩
    exact ⟨_, below'.runs_joinLink_single rfl,
      h.alike.joinSingle below below' target ⟨a, foreignKey⟩ target.primaryKey⟩
  | manyToMany joinTable foreignKey associationKey =>
    -- neither draft has the join table yet
    have hjoinTable := below.joinTable_unnamed h.ready.tidy
    have hjoinTable' := below'.joinTable_unnamed h.ready'.tidy
    rcases (below.runs_joinLink_double h.ready.tidy joinTable foreignKey associationKey).unique hrun with
      ⟨_, rfl⟩
    exact ⟨_, below'.runs_joinLink_double h.ready'.tidy joinTable foreignKey associationKey,
      h.alike.joinDouble below below' hjoinTable hjoinTable' target joinTable
        ⟨a, m.primaryKey⟩ foreignKey associationKey target.primaryKey⟩
  | unknown kind =>
    unfold joinLink at hrun
    exact absurd hrun runs_throw

/-- What a path spans in one draft it spans in the other, once the last hop is joined there too. -/
theorem Twins.spans (h : Twins parent m d d') {name a : String} {definition : RelationDefinition}
    {first second : Relation s}
    (found : m.relation? name = some (.through name m definition first second))
    (last : (parent.child (.relation first.name)).child (.relation second.name) ∈ d'.joined)
    (hspans : d.Spans (parent.child (.relation name)) a n) :
    d'.Spans (parent.child (.relation name)) a n := by
  rcases hspans.found h.ready.typed found with ⟨_, _, _, hthrough, hleads, hlast, hnamed⟩
  cases hthrough
  refine .through h.ready'.mem h.ready'.typed found last ?_ hleads
  rw [h.alike.aliasAt?_joined h.bridged h.bridged' hlast last, hnamed]

/-- Joining the relation on drafts alike makes drafts alike. -/
def JoinsAlike (r : Relation s) : Prop :=
  ∀ (parent : TablePath) (d d' e : Draft s), Twins parent r.owner d d' →
    (join r (parent.child (.relation r.name))).Runs d () e →
    ∃ e', (join r (parent.child (.relation r.name))).Runs d' () e' ∧ GrowAlike d d' e e' ∧
      Twins (parent.child (.relation r.name)) r.target e e'

theorem JoinsAlike.of_alike {r : Relation s} (hr : r.Resolved)
    (hjoin : ∀ (parent : TablePath) (d d' e : Draft s), Twins parent r.owner d d' →
      (join r (parent.child (.relation r.name))).Runs d () e →
      ∃ e', (join r (parent.child (.relation r.name))).Runs d' () e' ∧ e.Alike e') : JoinsAlike r := by
  intro parent d d' e h hrun
  rcases hjoin _ _ _ _ h hrun with ⟨e', hrun', halike⟩
  have hjoins := h.ready.tidy.runs_join hr h.ready.mem h.ready.typed hrun
  have hjoins' := h.ready'.tidy.runs_join hr h.ready'.mem h.ready'.typed hrun'
  have hgrow : GrowAlike d d' e e' := .of_grows h halike hjoins.joins.grows hjoins'.joins.grows
  refine ⟨e', hrun', hgrow, hgrow.twins_at ?_ ?_⟩
  · exact ⟨hgrow.grown.tidy, hjoins.mem, hjoins.typed⟩
  · exact ⟨hgrow.grown'.tidy, hjoins'.mem, hjoins'.typed⟩

/-- A direct relation is joined alike, as both drafts have its path or neither. -/
theorem joinsAlike_direct {name : String} {owner target : Model s} {definition : RelationDefinition}
    {link : Link} (found : owner.relation? name = some (.direct name owner definition link target)) :
    JoinsAlike (.direct name owner definition link target) := by
  refine JoinsAlike.of_alike (.direct found) fun parent d d' e h hrun => ?_
  rw [Relation.name] at hrun ⊢
  have hsame := h.alike.sameAt_direct h.ready.typed found
  -- the path is joined on both drafts or on neither
  by_cases hpath : parent.child (.relation name) ∈ d.joined
  · have hjoined := (runs_join_joined hpath).1 hrun
    exact ⟨d', (runs_join_joined (hsame.joined.1 hpath)).2 rfl, hjoined ▸ h.alike⟩
  · have hpath' : parent.child (.relation name) ∉ d'.joined := mt hsame.joined.2 hpath
    rcases h.aliasAt?_joined with ⟨a, ha, ha'⟩
    have below : d.Below parent name owner a :=
      ⟨h.ready.mem, ha, h.ready.typed, hpath, h.ready.tidy.relation_unnamed hpath⟩
    have below' : d'.Below parent name owner a :=
      ⟨h.ready'.mem, ha', h.ready'.typed, hpath', h.ready'.tidy.relation_unnamed hpath'⟩
    have hunjoined : ∀ {d : Draft s}, parent.child (.relation name) ∉ d.joined →
        ¬d.isJoined (parent.child (.relation name)) = true := by
      intro d hpath hjoined
      exact hpath (of_decide_eq_true hjoined)
    rw [join, h.ready.tidy.parent?_child h.ready.mem] at hrun ⊢
    simp only [runs_bind, runs_get] at hrun ⊢
    rcases hrun with ⟨_, _, ⟨rfl, rfl⟩, hrun⟩
    rw [if_neg (hunjoined hpath)] at hrun
    simp only [runs_bind, runs_modifyGet, runs_modify, aliasOf_of_some ha] at hrun
    rcases hrun with ⟨_, _, ⟨rfl, rfl⟩, _, f, hlink, rfl⟩
    rcases h.runs_joinLink below below' hlink with ⟨f', hlink', hmarked⟩
    refine ⟨_, ⟨d', d', ⟨rfl, rfl⟩, ?_⟩, hmarked⟩
    rw [if_neg (hunjoined hpath')]
    simp only [runs_bind, runs_modifyGet, runs_modify, aliasOf_of_some ha']
    exact ⟨a, d', ⟨rfl, rfl⟩, _, f', hlink', rfl⟩

section Through

variable {name a : String} {owner : Model s} {definition : RelationDefinition}
  {first second : Relation s} {d₁ d₂ : Draft s}

/-- The hops of a through relation are joined alike, and its path spans the same in both drafts. -/
theorem Twins.runs_hops (h : Twins parent owner d d')
    (hr : (Relation.through name owner definition first second).Resolved) (hjoin : JoinsAlike first)
    (hjoin' : JoinsAlike second)
    (hfirst : (join first (parent.child (.relation first.name))).Runs d () d₁)
    (hsecond : (join second ((parent.child (.relation first.name)).child (.relation second.name))).Runs
      d₁ () d₂) (hspans : d₂.Spans (parent.child (.relation name)) a n) :
    ∃ d₁' d₂', (join first (parent.child (.relation first.name))).Runs d' () d₁' ∧
      (join second ((parent.child (.relation first.name)).child (.relation second.name))).Runs d₁' ()
        d₂' ∧ GrowAlike d d' d₂ d₂' ∧ d₂'.Spans (parent.child (.relation name)) a n := by
  have hfound := hr.found
  cases hr with
  | through found first_owner second_owner first_resolved second_resolved =>
    rcases hjoin _ _ _ _ (first_owner.symm ▸ h) hfirst with ⟨d₁', hfirst', hgrow, h₁⟩
    rcases hjoin' _ _ _ _ (second_owner.symm ▸ h₁) hsecond with ⟨d₂', hsecond', hgrow', h₂⟩
    have hboth := hgrow.trans hgrow'
    exact ⟨d₁', d₂', hfirst', hsecond', hboth, (hboth.twins h).spans found h₂.ready'.mem hspans⟩

end Through

/-- Any relation is joined alike. -/
theorem joinsAlike {r : Relation s} (hr : r.Resolved) : JoinsAlike r := by
  induction hr with
  | direct found => exact joinsAlike_direct found
  | @through name owner definition first second found first_owner second_owner first_resolved
      second_resolved ihFirst ihSecond =>
    have hr : (Relation.through name owner definition first second).Resolved :=
      .through found first_owner second_owner first_resolved second_resolved
    refine JoinsAlike.of_alike hr fun parent d d' e h hrun => ?_
    -- a run joins the two hops and spans the relation, and both runs find the same place
    rcases (h.ready.runs_join_through_iff h.bridged hr).1 hrun with
        ⟨d₁, d₂, a, hfirst, hsecond, hspans, rfl⟩
    rcases h.runs_hops hr ihFirst ihSecond hfirst hsecond hspans with
        ⟨d₁', d₂', hfirst', hsecond', hgrow, hspans'⟩
    refine ⟨_, (h.ready'.runs_join_through_iff h.bridged' hr).2
      ⟨d₁', d₂', a, hfirst', hsecond', hspans', rfl⟩, ?_⟩
    exact hgrow.alike.bridge (hgrow.twins h).ready.tidy (hgrow.twins h).ready'.tidy hspans hspans'

/-! ## Paths -/

/-- An open path is followed alike. -/
theorem Twins.runs_followPath {path : List String} (h : Twins table m d d') (hopen : OpenPath m path n)
    {u : Unit} (hrun : (followPath table m path).Runs d u e) :
    ∃ e', (followPath table m path).Runs d' u e' ∧ GrowAlike d d' e e' ∧
      Twins (table.join path) n e e' := by
  induction hopen generalizing d d' e table with
  | here m =>
    have hnil : ∀ {d e : Draft s}, (followPath table m []).Runs d u e ↔ d = e := by
      intro d e
      simp [followPath, Column.hopsFrom, joinHops]
    rw [hnil] at hrun
    subst hrun
    rw [TablePath.join_nil]
    exact ⟨d', hnil.2 rfl, .refl h, h⟩
  | @step m n name path r shown found rest ih =>
    rcases Model.relation?_resolved found with ⟨hresolved, howner, rfl⟩
    have hfirst : OpenPath m [r.name] r.target := .step shown found (.here _)
    -- the first relation is joined alike, which leaves twins for the rest of the path
    rw [← List.singleton_append, runs_followPath_append hfirst] at hrun
    rcases hrun with ⟨d₁, hjoin, hrest⟩
    rw [runs_followPath_singleton found] at hjoin
    rw [TablePath.join_singleton] at hrest
    rcases joinsAlike hresolved _ _ _ _ (howner.symm ▸ h) hjoin with ⟨d₁', hjoin', hgrow, hinner⟩
    rcases ih hinner hrest with ⟨e', hrest', hgrow', hend⟩
    refine ⟨e', ?_, hgrow.trans hgrow', ?_⟩
    · rw [← List.singleton_append, runs_followPath_append hfirst]
      exact ⟨d₁', (runs_followPath_singleton found).2 hjoin', hrest'⟩
    · rw [TablePath.join_cons]
      exact hend

end Draft

end DocQuery
