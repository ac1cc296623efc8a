import DocQuery.Proofs.Draft.Embed

namespace DocQuery

/-! # Drafts alike

The path of a through relation stands for the table of its last hop. Whether the path itself has
been joined or only its hops have makes no difference to the statement, nor to what is joined next.
Drafts that differ in such paths alone are alike.

* `Spans.found`: a spanned path is that of a through relation whose last hop is joined.
* `Bridged.aliasAt?_eq`: a joined path has the alias of that table.
* `bridge_left`: whether such a path has been joined makes no difference.
-/

variable {s : Schema}

namespace Draft

variable {d d' e e' : Draft s} {path parent : TablePath} {name a : String} {n owner : Model s}
  {definition : RelationDefinition} {first second : Relation s}

/-! ## Paths of through relations -/

/-- The path is that of a through relation whose last hop is joined, as a table of `n` with the
alias `a`. -/
inductive Spans (d : Draft s) : TablePath → String → Model s → Prop where
  | through {parent : TablePath} {name a : String} {owner n : Model s} {definition : RelationDefinition}
      {first second : Relation s} (joined : parent ∈ d.joined) (typed : d.modelAt? parent = some owner)
      (found : owner.relation? name = some (.through name owner definition first second))
      (last : (parent.child (.relation first.name)).child (.relation second.name) ∈ d.joined)
      (named : d.aliasAt? ((parent.child (.relation first.name)).child (.relation second.name)) =
        some a) (leads : n = second.target) : Spans d (parent.child (.relation name)) a n

/-- What a path spans is settled by the relation that it is the path of. -/
theorem Spans.found {r : Relation s} (h : d.Spans (parent.child (.relation name)) a n)
    (htyped : d.modelAt? parent = some owner) (hfound : owner.relation? name = some r) :
    ∃ definition first second, r = .through name owner definition first second ∧ n = second.target ∧
      (parent.child (.relation first.name)).child (.relation second.name) ∈ d.joined ∧
      d.aliasAt? ((parent.child (.relation first.name)).child (.relation second.name)) = some a := by
  generalize hpath : parent.child (.relation name) = q at h
  cases h with
  | through joined typed found last named leads =>
    rcases TablePath.child_inj.1 hpath with ⟨rfl, hname⟩
    cases hname
    rw [htyped] at typed
    cases typed
    rw [hfound] at found
    cases found
    exact ⟨_, _, _, rfl, leads, last, named⟩

/-- The path of a direct relation spans nothing. -/
theorem Spans.not_direct {target : Model s} {link : Link} (htyped : d.modelAt? parent = some owner)
    (hfound : owner.relation? name = some (.direct name owner definition link target)) :
    ¬d.Spans (parent.child (.relation name)) a n := by
  intro h
  rcases h.found htyped hfound with ⟨_, _, _, hthrough, _⟩
  cases hthrough

/-- A path spans what it did after a table has been entered. -/
theorem Spans.enter {q : TablePath} {k : Model s} (h : d.Spans path a n) (he : d.Enters q k e) :
    e.Spans path a n := by
  cases h with
  | through joined typed found last named leads =>
    exact .through (he.mem_joined.2 (.inr joined)) ((he.modelAt?_eq joined).trans typed) found
      (he.mem_joined.2 (.inr last)) (he.keeps _ _ named) leads

/-- What a path spans depends on the tables alone. -/
theorem Spans.congr (h : d.Spans path a n) (haliases : e.aliases = d.aliases)
    (hmodels : e.models = d.models) (hjoined : e.joined = d.joined) : e.Spans path a n := by
  cases h with
  | through joined typed found last named leads =>
    have hmodel : ∀ q, e.modelAt? q = d.modelAt? q := by
      intro q
      rw [modelAt?, hmodels, modelAt?]
    have halias : ∀ q, e.aliasAt? q = d.aliasAt? q := by
      intro q
      rw [aliasAt?, haliases, aliasAt?]
    rw [← hjoined] at joined last
    exact .through joined ((hmodel _).trans typed) found last ((halias _).trans named) leads

/-- Lets the path stand for a table, unless it is joined. -/
def bridge (d : Draft s) (path : TablePath) (a : String) (n : Model s) : Draft s :=
  if path ∈ d.joined then d else (d.setAlias path a).markJoined path n

/-- Bridging a path lets it enter. -/
theorem Spans.enters_bridge (h : d.Spans path a n) (hd : d.Tidy) (hpath : path ∉ d.joined) :
    d.Enters path n (d.bridge path a n) := by
  rw [bridge, if_neg hpath]
  cases h with
  | through joined typed found last named leads =>
    rcases hd.named _ joined with ⟨b, hb⟩
    exact Below.enters_through ⟨joined, hb, typed, hpath, hd.relation_unnamed hpath⟩

/-- A bridged path spans what it spanned. -/
theorem Spans.bridge (h : d.Spans path a n) (hd : d.Tidy) : (d.bridge path a n).Spans path a n := by
  by_cases hpath : path ∈ d.joined
  · rw [Draft.bridge, if_pos hpath]
    exact h
  · exact h.enter (h.enters_bridge hd hpath)

/-! ## Bridged drafts -/

/-- Where the path of a through relation is joined, it stands for the table of the last hop. -/
def Bridged (d : Draft s) : Prop :=
  ∀ (parent : TablePath) (name : String) (owner : Model s) (definition : RelationDefinition)
    (first second : Relation s), parent.child (.relation name) ∈ d.joined →
    d.modelAt? parent = some owner →
    owner.relation? name = some (.through name owner definition first second) →
    ∃ a, d.Spans (parent.child (.relation name)) a second.target ∧
      d.aliasAt? (parent.child (.relation name)) = some a

/-- A fresh draft has no path to bridge. -/
theorem bridged_withBase (model : Model s) (config : Config) (baseAlias : String)
    (usedAliases : List String) (lastParam : Nat) :
    (withBase model config baseAlias usedAliases lastParam).Bridged := by
  intro parent name owner definition first second hpath
  have hroot : parent.child (.relation name) = TablePath.child ⟨[]⟩ (.base model.table) :=
    List.mem_singleton.1 hpath
  -- the base alone is joined, and it is no relation
  cases (TablePath.child_inj.1 hroot).2

/-- A joined path has the alias of the table that it spans. -/
theorem Bridged.aliasAt?_eq (h : d.Bridged) (hspans : d.Spans path a n) (hpath : path ∈ d.joined) :
    d.aliasAt? path = some a := by
  cases hspans with
  | through joined typed found last named leads =>
    rcases h _ _ _ _ _ _ hpath typed found with ⟨b, hb, hnamed⟩
    rcases hb.found typed found with ⟨_, _, _, hthrough, _, _, hlast⟩
    cases hthrough
    rw [hnamed, ← hlast, named]

/-- Where the path of a through relation is joined, both its hops are. -/
theorem Bridged.hops_joined (h : d.Bridged) (hd : d.Tidy)
    (hpath : parent.child (.relation name) ∈ d.joined) (htyped : d.modelAt? parent = some owner)
    (hfound : owner.relation? name = some (.through name owner definition first second)) :
    parent.child (.relation first.name) ∈ d.joined ∧
      (parent.child (.relation first.name)).child (.relation second.name) ∈ d.joined := by
  rcases h _ _ _ _ _ _ hpath htyped hfound with ⟨a, hspans, _⟩
  rcases hspans.found htyped hfound with ⟨_, _, _, hthrough, _, hlast, _⟩
  cases hthrough
  rcases hd.reached _ _ hlast with ⟨_, _, hfirst, _⟩
  exact ⟨hfirst, hlast⟩

/-- A draft stays bridged when a hop is entered, if the path of a through relation is entered where
its last hop is joined. -/
theorem Bridged.enter (h : d.Bridged) (hd : d.Tidy) {q : TablePath} {k : Model s}
    (he : d.Enters q k e)
    (hnew : ∀ {parent name owner definition first second}, q = parent.child (.relation name) →
      d.modelAt? parent = some owner →
      owner.relation? name = some (.through name owner definition first second) →
      ∃ a, d.Spans q a second.target ∧ e.aliasAt? q = some a)
    (hparent : ∀ {parent name}, q = parent.child (.relation name) → parent ∈ d.joined) : e.Bridged := by
  intro parent name owner definition first second hpath htyped hfound
  rcases he.mem_joined.1 hpath with hq | hold
  · rw [he.modelAt?_eq (hparent hq.symm)] at htyped
    rcases hnew hq.symm htyped hfound with ⟨a, hspans, hnamed⟩
    rw [hq]
    exact ⟨a, hspans.enter he, hnamed⟩
  · -- the relation was joined before, and so was its owner's table
    rcases hd.reached _ _ hold with ⟨_, _, hparent, _⟩
    rw [he.modelAt?_eq hparent] at htyped
    rcases h _ _ _ _ _ _ hold htyped hfound with ⟨a, hspans, hnamed⟩
    exact ⟨a, hspans.enter he, he.keeps _ _ hnamed⟩

/-- Entering the path of a relation, which spans a table if the relation is a through relation. -/
theorem Bridged.enter_relation (h : d.Bridged) (hd : d.Tidy) {r : Relation s} {b : String}
    {k : Model s} (below : d.Below parent name owner b) (hfound : owner.relation? name = some r)
    (he : d.Enters (parent.child (.relation name)) k e)
    (hnew : ∀ {definition first second}, r = .through name owner definition first second →
      ∃ a, d.Spans (parent.child (.relation name)) a second.target ∧
        e.aliasAt? (parent.child (.relation name)) = some a) : e.Bridged := by
  refine h.enter hd he (fun hpath htyped hthrough => ?_) fun hpath => ?_
  · rcases TablePath.child_inj.1 hpath with ⟨rfl, hname⟩
    cases hname
    rw [below.typed] at htyped
    cases htyped
    rw [hfound] at hthrough
    cases hthrough
    exact hnew rfl
  · rcases TablePath.child_inj.1 hpath with ⟨rfl, _⟩
    exact below.joined

/-- Joining keeps the joined paths bridged. -/
theorem JoinStep.bridged (h : JoinStep d e) (hd : d.Tidy) (hb : d.Bridged) : e.Bridged := by
  cases h with
  | single below found keys =>
    refine hb.enter_relation hd below found below.enters_single fun hthrough => ?_
    cases hthrough
  | double below found unnamed =>
    refine hb.enter_relation hd below found (below.enters_double unnamed) fun hthrough => ?_
    cases hthrough
  | @through parent a b name owner definition first second below found joined named =>
    refine hb.enter_relation hd below found below.enters_through fun hthrough => ?_
    cases hthrough
    refine ⟨b, .through below.joined below.typed found joined named rfl, ?_⟩
    rw [aliasAt?_markJoined, aliasAt?_setAlias, if_pos rfl]

/-- An embedded sub-query is joined over no relation. -/
theorem Bridged.embed (h : d.Bridged) (hd : d.Tidy) {table place : TablePath}
    (hplace : d.Place table place) (model : Model s) (done : Draft s) :
    (d.embed place model done).Bridged := by
  rcases hplace.child with ⟨derived, hderived⟩
  have hrelation : ∀ {parent : TablePath} {name : String}, place ≠ parent.child (.relation name) := by
    intro parent name hpath
    rw [hderived] at hpath
    cases (TablePath.child_inj.1 hpath).2
  exact h.enter hd (hd.enters_embed hplace model done) (fun hpath => absurd hpath hrelation)
    fun hpath => absurd hpath hrelation

/-! ## Drafts alike -/

/-- The drafts have the same table at the path, or none. -/
structure SameAt (d d' : Draft s) (path : TablePath) : Prop where
  joined : path ∈ d.joined ↔ path ∈ d'.joined
  alias_eq : d.aliasAt? path = d'.aliasAt? path
  model_eq : d.modelAt? path = d'.modelAt? path

/-- The draft with the tables of another. -/
def withTables (d f : Draft s) : Draft s :=
  { d with aliases := f.aliases, models := f.models, joined := f.joined }

/-- The drafts differ in nothing but paths of through relations, whose last hops both have joined. -/
structure Alike (d d' : Draft s) : Prop where
  rest : d' = d.withTables d'
  tables : ∀ path, d.SameAt d' path ∨ ∃ a n, d.Spans path a n ∧ d'.Spans path a n

namespace Alike

/-- A draft is like itself. -/
theorem refl (d : Draft s) : d.Alike d where
  rest := rfl
  tables := fun _ => .inl ⟨Iff.rfl, rfl, rfl⟩

/-- Drafts are alike both ways. -/
theorem symm (h : d.Alike d') : d'.Alike d where
  rest := by
    rw [h.rest]
    rfl
  tables := by
    intro path
    rcases h.tables path with hsame | ⟨a, n, hspans, hspans'⟩
    · exact .inl ⟨hsame.joined.symm, hsame.alias_eq.symm, hsame.model_eq.symm⟩
    · exact .inr ⟨a, n, hspans', hspans⟩

/-- Drafts alike give the same new aliases. -/
theorem newAlias_eq (h : d.Alike d') (path : TablePath) : d'.newAlias path = d.newAlias path := by
  rw [h.rest]
  rfl

/-- A path that has the same alias in both, or none, has it after it has been asked for. -/
theorem aliasOf (h : d.Alike d') (hsame : d.aliasAt? path = d'.aliasAt? path) :
    (d'.aliasOf path).1 = (d.aliasOf path).1 ∧
      (d'.aliasOf path).2 = (d.aliasOf path).2.withTables (d'.aliasOf path).2 := by
  cases ha : d.aliasAt? path with
  | some a =>
    rw [ha] at hsame
    rw [aliasOf_of_some ha, aliasOf_of_some hsame.symm]
    exact ⟨rfl, h.rest⟩
  | none =>
    rw [ha] at hsame
    rw [aliasOf_of_none ha, aliasOf_of_none hsame.symm]
    refine ⟨h.newAlias_eq path, ?_⟩
    rw [h.rest]
    rfl

/-- Sub-queries begin with the same draft in both. -/
theorem nestedDraft_eq (h : d.Alike d') (place : TablePath) (model : Model s) :
    d'.nestedDraft place model = d.nestedDraft place model := by
  rw [h.rest]
  rfl

/-- Only at the path of a relation the drafts may differ. -/
theorem sameAt (h : d.Alike d')
    (hpath : ∀ (parent : TablePath) (name : String), path ≠ parent.child (.relation name)) :
    d.SameAt d' path := by
  rcases h.tables path with hsame | ⟨a, n, hspans, _⟩
  · exact hsame
  · cases hspans with
    | through => exact absurd rfl (hpath _ _)

/-- A derived table stands at the same path in both. -/
theorem derivedPath_eq (h : d.Alike d') (table : TablePath) (relation : String) :
    derivedPath d' table relation = derivedPath d table relation := by
  rw [derivedPath_eq_freePath, derivedPath_eq_freePath]
  refine freePath_congr fun derived => (SameAt.joined ?_).symm
  refine h.sameAt fun parent name hpath => ?_
  cases (TablePath.child_inj.1 hpath).2

/-- At the path of a direct relation they do not differ. -/
theorem sameAt_direct (h : d.Alike d') {target : Model s} {link : Link}
    (htyped : d.modelAt? parent = some owner)
    (hfound : owner.relation? name = some (.direct name owner definition link target)) :
    d.SameAt d' (parent.child (.relation name)) := by
  rcases h.tables (parent.child (.relation name)) with hsame | ⟨a, n, hspans, _⟩
  · exact hsame
  · exact absurd hspans (Spans.not_direct htyped hfound)

/-- A table that both have joined has the same alias in both. -/
theorem aliasAt?_joined (h : d.Alike d') (hb : d.Bridged) (hb' : d'.Bridged) (hpath : path ∈ d.joined)
    (hpath' : path ∈ d'.joined) : d'.aliasAt? path = d.aliasAt? path := by
  rcases h.tables path with hsame | ⟨a, n, hspans, hspans'⟩
  · exact hsame.alias_eq.symm
  · rw [hb.aliasAt?_eq hspans hpath, hb'.aliasAt?_eq hspans' hpath']

/-- A step that leaves the tables alone. -/
theorem clause {g : Draft s → Draft s} (h : d.Alike d')
    (hg : ∀ f, g (d.withTables f) = (g d).withTables f) : (g d).Alike (g d') := by
  have hself : g d = (g d).withTables d := hg d
  have hother : g d' = (g d).withTables d' := by
    rw [← hg, ← h.rest]
  rw [hself, hother]
  refine ⟨rfl, fun path => ?_⟩
  rcases h.tables path with hsame | ⟨a, n, hspans, hspans'⟩
  · exact .inl ⟨hsame.joined, hsame.alias_eq, hsame.model_eq⟩
  · exact .inr ⟨a, n, hspans.congr rfl rfl rfl, hspans'.congr rfl rfl rfl⟩

/-- Both drafts enter a table, under the same alias. -/
theorem enter {q : TablePath} {k : Model s} (h : d.Alike d') (he : d.Enters q k e)
    (he' : d'.Enters q k e') (hrest : e' = e.withTables e')
    (haliases : ∀ p, d.aliasAt? p = d'.aliasAt? p → e.aliasAt? p = e'.aliasAt? p) : e.Alike e' where
  rest := hrest
  tables := by
    intro path
    rcases h.tables path with hsame | ⟨a, n, hspans, hspans'⟩
    · refine .inl ⟨?_, haliases path hsame.alias_eq, ?_⟩
      · rw [he.mem_joined, he'.mem_joined, hsame.joined]
      · rw [he.modelAt?, he'.modelAt?, hsame.model_eq]
    · exact .inr ⟨a, n, hspans.enter he, hspans'.enter he'⟩

/-- Where a path spans a table, it makes no difference whether it is joined. -/
theorem bridge_left (h : d.Alike d') (hd : d.Tidy) (hspans : d.Spans path a n)
    (hspans' : d'.Spans path a n) : (d.bridge path a n).Alike d' := by
  by_cases hpath : path ∈ d.joined
  · rw [bridge, if_pos hpath]
    exact h
  · have he := hspans.enters_bridge hd hpath
    have haliases : ∀ q, (d.bridge path a n).aliasAt? q = if q = path then some a else d.aliasAt? q := by
      intro q
      rw [bridge, if_neg hpath, aliasAt?_markJoined, aliasAt?_setAlias]
    have hrest : d' = (d.bridge path a n).withTables d' := by
      rw [bridge, if_neg hpath]
      exact h.rest
    refine ⟨hrest, fun q => ?_⟩
    -- the bridged path spans in both drafts, all other paths are as they were
    by_cases hq : q = path
    · exact .inr ⟨a, n, hq ▸ hspans.enter he, hq ▸ hspans'⟩
    · rcases h.tables q with hsame | ⟨b, k, hq, hq'⟩
      · refine .inl ⟨?_, ?_, ?_⟩
        · rw [he.mem_joined, hsame.joined, or_iff_right hq]
        · rw [haliases, if_neg hq, hsame.alias_eq]
        · rw [he.modelAt?, if_neg hq, hsame.model_eq]
      · exact .inr ⟨b, k, hq.enter he, hq'⟩

theorem bridge (h : d.Alike d') (hd : d.Tidy) (hd' : d'.Tidy) (hspans : d.Spans path a n)
    (hspans' : d'.Spans path a n) : (d.bridge path a n).Alike (d'.bridge path a n) := by
  have hleft := h.bridge_left hd hspans hspans'
  exact (hleft.symm.bridge_left hd' hspans' (hspans.bridge hd)).symm

/-- Both drafts join a relation without a join table. -/
theorem joinSingle (h : d.Alike d') (below : d.Below parent name owner a)
    (below' : d'.Below parent name owner a) (target : Model s) (left : QualifiedColumn) (key : String) :
    ((d.introduce (parent.child (.relation name)) target.table left key).markJoined
      (parent.child (.relation name)) target).Alike
      ((d'.introduce (parent.child (.relation name)) target.table left key).markJoined
        (parent.child (.relation name)) target) := by
  refine h.enter below.enters_single below'.enters_single ?_ fun q hq => ?_
  · rw [h.rest]
    rfl
  · rw [aliasAt?_markJoined, aliasAt?_introduce, aliasAt?_markJoined, aliasAt?_introduce,
      h.newAlias_eq, hq]

/-- Both drafts join a relation with its join table. -/
theorem joinDouble (h : d.Alike d') (below : d.Below parent name owner a)
    (below' : d'.Below parent name owner a)
    (unnamed : d.aliasAt? (parent.child (.joinTable name)) = none)
    (unnamed' : d'.aliasAt? (parent.child (.joinTable name)) = none) (target : Model s)
    (joinTable : String) (left : QualifiedColumn) (joinKey associationKey key : String) :
    (((d.introduce (parent.child (.joinTable name)) joinTable left joinKey).introduce
      (parent.child (.relation name)) target.table
      ⟨d.newAlias (parent.child (.joinTable name)), associationKey⟩ key).markJoined
      (parent.child (.relation name)) target).Alike
      (((d'.introduce (parent.child (.joinTable name)) joinTable left joinKey).introduce
        (parent.child (.relation name)) target.table
        ⟨d'.newAlias (parent.child (.joinTable name)), associationKey⟩ key).markJoined
        (parent.child (.relation name)) target) := by
  refine h.enter (below.enters_double unnamed) (below'.enters_double unnamed') ?_ fun q hq => ?_
  · rw [h.rest]
    rfl
  · -- the join table and the table get the same new aliases in both drafts
    have hsecond : (d'.introduce (parent.child (.joinTable name)) joinTable left joinKey).newAlias
        (parent.child (.relation name)) =
        (d.introduce (parent.child (.joinTable name)) joinTable left joinKey).newAlias
          (parent.child (.relation name)) := by
      rw [h.rest]
      rfl
    simp only [aliasAt?_markJoined, aliasAt?_introduce, hsecond, h.newAlias_eq, hq]

/-- Both drafts take in the same sub-query. -/
theorem embed (h : d.Alike d') (hd : d.Tidy) (hd' : d'.Tidy) {table place : TablePath}
    (hplace : d.Place table place) (hplace' : d'.Place table place) (model : Model s)
    (done : Draft s) : (d.embed place model done).Alike (d'.embed place model done) := by
  refine h.enter (hd.enters_embed hplace model done) (hd'.enters_embed hplace' model done) ?_
    fun q hq => ?_
  · rw [h.rest]
    rfl
  · have hbase := h.newAlias_eq (nestedBase place model)
    have hnew : (d'.takeOver place model done).newAlias place =
        (d.takeOver place model done).newAlias place := by
      rw [h.rest]
      rfl
    rw [aliasAt?_embed, aliasAt?_embed, hnew, hbase, hq]

end Alike

/-- What is embedded does not depend on the tables of the sub-query. -/
theorem embed_withTables (d done f : Draft s) (place : TablePath) (model : Model s) :
    d.embed place model (done.withTables f) = d.embed place model done := rfl

end Draft

end DocQuery
