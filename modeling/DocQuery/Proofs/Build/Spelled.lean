import DocQuery.Proofs.Build.Ledger
import DocQuery.Proofs.Schema.Identifiers

namespace DocQuery

/-! # Drafts with spelled names

Where the identifiers of the schema and the stem of aliases are spelled in a class of characters
that lacks at most the colon and the quote, so are all names in a draft, and the tests written into
it are sound. The invariant is shown for one step of joining, for correlations and embeddings, and
by induction for all that a build writes.

* `JoinStep.spelled`: joining keeps the names of a draft spelled.
* `Writes.spelled`: so does all that a build writes, and the tests that it writes are sound.
* `Spelled.finish`: the finished statement of a draft with spelled names is sound.
-/

open Draft

variable {s : Schema} {p : Char → Prop} {allowed : Operand → Prop}

/-- The path has the class's characters in every alias made from it. -/
def TablePath.Spelled (p : Char → Prop) (path : TablePath) : Prop :=
  ∀ step ∈ path.steps, DocQuery.Spelled p step.aliasPart

namespace TablePath.Spelled

variable {path : TablePath} {name : String}

/-- A path is spelled as its steps are. -/
theorem child {step : PathStep} (h : path.Spelled p) (hstep : DocQuery.Spelled p step.aliasPart) :
    (path.child step).Spelled p :=
  List.forall_mem_append.2 ⟨h, List.forall_mem_singleton.2 hstep⟩

theorem relation (h : path.Spelled p) (hname : DocQuery.Spelled p name) :
    (path.child (.relation name)).Spelled p := h.child hname

section

variable (hp : ∀ c, c ≠ ':' → c ≠ '"' → p c)
include hp

theorem root (h : DocQuery.Spelled p name) : (TablePath.root name).Spelled p :=
  List.forall_mem_singleton.2 ((DocQuery.Spelled.of_bare hp (by decide)).append h)

theorem base (h : path.Spelled p) (hname : DocQuery.Spelled p name) :
    (path.child (.base name)).Spelled p :=
  h.child ((DocQuery.Spelled.of_bare hp (by decide)).append hname)

theorem joinTable (h : path.Spelled p) (hname : DocQuery.Spelled p name) :
    (path.child (.joinTable name)).Spelled p :=
  h.child ((DocQuery.Spelled.of_bare hp (by decide)).append hname)

/-- The path of a derived table numbers the name of the relation. -/
theorem derivedCandidate (h : path.Spelled p) (hname : DocQuery.Spelled p name) (n : Nat) :
    (Draft.derivedCandidate path name n).Spelled p := by
  have hnumbered : DocQuery.Spelled p (if n = 1 then name else name ++ "_" ++ toString n) := by
    split
    · exact hname
    · exact (hname.append (.of_bare hp (by decide))).append (.toString_nat hp n)
  exact h.child ((DocQuery.Spelled.of_bare hp (by decide)).append hnumbered)

end

end TablePath.Spelled

/-- A join of spelled names, or of a sound statement under a spelled name. -/
inductive Join.Sound (p : Char → Prop) : Join Statement → Prop where
  | table {table tableAlias key : String} {left : QualifiedColumn} (table_spelled : Spelled p table)
      (alias_spelled : Spelled p tableAlias) (left_spelled : left.Spelled p)
      (key_spelled : Spelled p key) : Sound p (.table table tableAlias left key)
  | derived {tableAlias : String} {statement : Statement} (alias_spelled : Spelled p tableAlias)
      (sound : statement.Sound p) : Sound p (.derived tableAlias statement)

/-! ## Fresh aliases -/

/-- A fresh alias is a head of the wanted one with a number behind it. -/
theorem Spelled.freshAlias (hp : ∀ c, c ≠ ':' → c ≠ '"' → p c) {wanted : String} (h : Spelled p wanted)
    (maxLength : Nat) (used : List String) : Spelled p (freshAlias maxLength used wanted) := by
  unfold DocQuery.freshAlias
  split
  · exact h
  · refine Spelled.append ?_ ((Spelled.of_bare hp (by decide)).append (.toString_nat hp _))
    intro c hc
    rw [String.toList_ofList] at hc
    exact h c ((FreshAlias.takeBytes_prefix _ _).subset hc)

namespace Draft

/-- All names in the draft are spelled in the class. -/
structure Spelled (p : Char → Prop) (d : Draft s) : Prop where
  stem : DocQuery.Spelled p d.config.aliasStem
  base : d.base.Spelled p
  paths : ∀ path ∈ d.joined, path.Spelled p
  aliases : ∀ path a, d.aliasAt? path = some a → DocQuery.Spelled p a
  baseAlias : DocQuery.Spelled p d.baseAlias
  select : ∀ item ∈ d.select, item.Spelled p
  order : ∀ item ∈ d.order, item.column.Spelled p
  joins : ∀ join ∈ d.joins, join.Sound p

variable {d e : Draft s}

/-- The statement of a spelled draft is sound if the tests of its WHERE clause are. -/
theorem Spelled.finish (hs : ∀ name ∈ s.identifiers, DocQuery.Spelled p name) (h : d.Spelled p)
    (htests : ∀ t ∈ d.predicate.leaves, t.Sound p) : d.finish.Sound p := by
  refine .intro (d.model.spelled_table hs) h.baseAlias h.select h.order ?_ ?_ ?_ ?_ ?_
  · -- normalizing keeps the tests
    intro t ht
    have hpredicate : d.finish.predicate = d.predicate.normalize := rfl
    rw [hpredicate, Predicate.leaves_normalize] at ht
    exact htests t ht
  · intro join hjoin
    cases h.joins join hjoin with
    | table _ alias_spelled _ _ => exact alias_spelled
    | derived alias_spelled _ => exact alias_spelled
  · intro table tableAlias left key hjoin
    cases h.joins _ hjoin with
    | table table_spelled _ left_spelled key_spelled =>
      exact ⟨table_spelled, left_spelled, key_spelled⟩
  · intro tableAlias inner hjoin
    cases h.joins _ hjoin with
    | derived _ sound => exact sound
  · intro tableAlias sql hjoin
    cases h.joins _ hjoin

/-- A column that a joined table offers has the names of the draft and of the schema. -/
theorem Spelled.offers (hs : ∀ name ∈ s.identifiers, DocQuery.Spelled p name) (h : d.Spelled p)
    {path : TablePath} {c : QualifiedColumn} (hoffers : d.Offers path c) : c.Spelled p := by
  rcases hoffers.declared with ⟨m, _, definition, hmem, hname⟩
  exact ⟨h.aliases path _ hoffers.named, hname ▸ m.spelled_column hs hmem⟩

section Steps

variable (hp : ∀ c, c ≠ ':' → c ≠ '"' → p c)
include hp

/-- A new alias is spelled as the stem and the path are. -/
theorem Spelled.newAlias (h : d.Spelled p) {path : TablePath} (hpath : path.Spelled p) :
    DocQuery.Spelled p (d.newAlias path) := by
  have hseparator : DocQuery.Spelled p "_" := .of_bare hp (by decide)
  refine .freshAlias hp ((h.stem.append hseparator).append (.intercalate hseparator ?_)) _ _
  intro part hpart
  rcases List.mem_map.1 hpart with ⟨step, hstep, rfl⟩
  exact hpath step (List.mem_of_mem_drop hstep)

omit hp in
/-- A path may stand for a table with a spelled alias. -/
theorem Spelled.setAlias (h : d.Spelled p) (path : TablePath) {a : String}
    (ha : DocQuery.Spelled p a) : (d.setAlias path a).Spelled p := by
  refine ⟨h.stem, h.base, h.paths, fun q b hb => ?_, h.baseAlias, h.select, h.order, h.joins⟩
  rw [aliasAt?_setAlias] at hb
  split at hb
  · cases hb
    exact ha
  · exact h.aliases q b hb

/-- Naming a path by a new alias keeps the names spelled. -/
theorem Spelled.giveAlias (h : d.Spelled p) {path : TablePath} (hpath : path.Spelled p) :
    (d.giveAlias path).Spelled p :=
  have hset := h.setAlias path (h.newAlias hp hpath)
  ⟨h.stem, h.base, h.paths, hset.aliases, h.baseAlias, h.select, h.order, h.joins⟩

/-- The alias that a path has or is given is spelled. -/
theorem Spelled.aliasOf (h : d.Spelled p) {path : TablePath} (hpath : path.Spelled p) {a : String}
    (heq : d.aliasOf path = (a, e)) : DocQuery.Spelled p a ∧ e.Spelled p := by
  cases hnamed : d.aliasAt? path with
  | none =>
    rw [aliasOf_of_none hnamed] at heq
    cases heq
    exact ⟨h.newAlias hp hpath, h.giveAlias hp hpath⟩
  | some b =>
    rw [aliasOf_of_some hnamed] at heq
    cases heq
    exact ⟨h.aliases path a hnamed, h⟩

omit hp in
/-- A sound join keeps the names spelled. -/
theorem Spelled.addJoin (h : d.Spelled p) {join : Join Statement} (hjoin : join.Sound p) :
    (d.addJoin join).Spelled p :=
  ⟨h.stem, h.base, h.paths, h.aliases, h.baseAlias, h.select, h.order,
    List.forall_mem_append.2 ⟨h.joins, List.forall_mem_singleton.2 hjoin⟩⟩

omit hp in
theorem Spelled.joinedAt (h : d.Spelled p) {path : TablePath} (hpath : path.Spelled p) :
    ({ d with joined := path :: d.joined } : Draft s).Spelled p :=
  ⟨h.stem, h.base, List.forall_mem_cons.2 ⟨hpath, h.paths⟩, h.aliases, h.baseAlias, h.select,
    h.order, h.joins⟩

omit hp in
theorem Spelled.markJoined (h : d.Spelled p) {path : TablePath} (hpath : path.Spelled p)
    (model : Model s) : (d.markJoined path model).Spelled p :=
  have hjoined := h.joinedAt hpath
  ⟨h.stem, h.base, hjoined.paths, h.aliases, h.baseAlias, h.select, h.order, h.joins⟩

/-- A table is joined under a new alias. -/
theorem Spelled.introduce (h : d.Spelled p) {path : TablePath} (hpath : path.Spelled p)
    {table key : String} {left : QualifiedColumn} (htable : DocQuery.Spelled p table)
    (hleft : left.Spelled p) (hkey : DocQuery.Spelled p key) :
    (d.introduce path table left key).Spelled p :=
  (h.giveAlias hp hpath).addJoin (.table htable (h.newAlias hp hpath) hleft hkey)

variable (hs : ∀ name ∈ s.identifiers, DocQuery.Spelled p name)
include hs

/-- Joining one relation keeps the names spelled. -/
theorem JoinStep.spelled (h : JoinStep d e) (hd : d.Spelled p) : e.Spelled p := by
  cases h with
  -- the link names a key of the one model or of the other
  | single below found keys =>
    have hpath := (hd.paths _ below.joined).relation (Model.spelled_of_relation? hs found)
    have hnames := Link.spelled_names hs hp found
    have halias := hd.aliases _ _ below.named
    rcases keys with ⟨rfl, rfl⟩ | ⟨rfl, rfl⟩
    · exact (hd.introduce hp hpath (Model.spelled_table hs _)
        ⟨halias, Model.spelled_primaryKey hs _⟩ (hnames _ List.mem_cons_self)).markJoined hpath _
    · exact (hd.introduce hp hpath (Model.spelled_table hs _)
        ⟨halias, hnames _ List.mem_cons_self⟩ (Model.spelled_primaryKey hs _)).markJoined hpath _
  -- the join table comes in first, and its alias is on the left of the second join
  | @double parent a name joinTable foreignKey associationKey owner target definition below found
      unnamed =>
    have hname := Model.spelled_of_relation? hs found
    have hpath := (hd.paths _ below.joined).relation hname
    have hover := (hd.paths _ below.joined).joinTable hp hname
    have hnames := List.forall_mem_cons.1 (Link.spelled_names hs hp found)
    have hkeys := List.forall_mem_cons.1 hnames.2
    have hleft : QualifiedColumn.Spelled p ⟨a, owner.primaryKey⟩ :=
      ⟨hd.aliases _ _ below.named, owner.spelled_primaryKey hs⟩
    have hright : QualifiedColumn.Spelled p
        ⟨d.newAlias (parent.child (.joinTable name)), associationKey⟩ :=
      ⟨hd.newAlias hp hover, List.forall_mem_singleton.1 hkeys.2⟩
    have hjoined := hd.introduce hp hover hnames.1 hleft hkeys.1
    exact (hjoined.introduce hp hpath (target.spelled_table hs) hright
      (target.spelled_primaryKey hs)).markJoined hpath target
  -- no new name comes in
  | through below found joined named =>
    have hpath := (hd.paths _ below.joined).relation (Model.spelled_of_relation? hs found)
    exact (hd.setAlias _ (hd.aliases _ _ named)).markJoined hpath _

/-! ## Sub-queries -/

omit hp hs in
theorem Spelled.pushWhere (h : d.Spelled p) (tree : Predicate Test) :
    (d.pushWhere tree).Spelled p :=
  ⟨h.stem, h.base, h.paths, h.aliases, h.baseAlias, h.select, h.order, h.joins⟩

omit hs in
/-- A test that two columns are equal fills both places of its template. -/
theorem sound_equalColumns {left right : QualifiedColumn} (hleft : left.Spelled p)
    (hright : right.Spelled p) : Test.Sound p (.template "%s = %s" [left, right] []) := by
  have hfits : Template.Fits "%s = %s" 2 := by decide +kernel
  exact .template hfits.1 (.of_bare hp hfits.2)
    (List.forall_mem_cons.2 ⟨hleft, List.forall_mem_singleton.2 hright⟩)

omit hp hs in
/-- The tests of a predicate are sound if one more sound test is put in. -/
theorem sound_push {predicate : Predicate Test} {test : Test}
    (h : ∀ t ∈ predicate.leaves, t.Sound p) (htest : test.Sound p) :
    ∀ t ∈ (predicate.push (.leaf test)).leaves, t.Sound p := by
  rw [Predicate.leaves_push]
  exact List.forall_mem_append.2 ⟨h, List.forall_mem_singleton.2 htest⟩

/-- The correlation of a sub-query is spelled, and its test is sound. -/
theorem Correlates.spelled {a : String} {relation : Relation s} (h : Correlates a relation d e)
    (hresolved : relation.Resolved) (ha : DocQuery.Spelled p a) (hd : d.Spelled p)
    (htests : ∀ t ∈ d.predicate.leaves, t.Sound p) :
    e.Spelled p ∧ ∀ t ∈ e.predicate.leaves, t.Sound p := by
  cases h with
  -- the two keys are names of the schema, the aliases those of base and parent
  | hasMany named =>
    have hnames := Link.spelled_names hs hp hresolved.found
    refine ⟨hd.pushWhere _, sound_push htests (sound_equalColumns hp ⟨?_, ?_⟩ ⟨ha, ?_⟩)⟩
    · exact hd.aliases _ _ named
    · exact hnames _ List.mem_cons_self
    · exact Model.spelled_primaryKey hs _
  | belongsTo named =>
    have hnames := Link.spelled_names hs hp hresolved.found
    refine ⟨hd.pushWhere _, sound_push htests (sound_equalColumns hp ⟨?_, ?_⟩ ⟨ha, ?_⟩)⟩
    · exact hd.aliases _ _ named
    · exact Model.spelled_primaryKey hs _
    · exact hnames _ List.mem_cons_self
  -- the join table comes in under a spelled alias
  | @manyToMany _ e' b name joinTable foreignKey associationKey owner target definition named =>
    have hnames := List.forall_mem_cons.1 (Link.spelled_names hs hp hresolved.found)
    have hover := hd.base.joinTable hp (Model.spelled_of_relation? hs hresolved.found)
    rcases hd.aliasOf hp hover named with ⟨hb, he'⟩
    have htests' : ∀ t ∈ e'.predicate.leaves, t.Sound p := by
      rw [aliasOf_eq_with named]
      exact htests
    have hkeys := List.forall_mem_cons.1 hnames.2
    have hleft : QualifiedColumn.Spelled p ⟨e'.baseAlias, target.primaryKey⟩ :=
      ⟨he'.baseAlias, target.spelled_primaryKey hs⟩
    have hadded := he'.addJoin
      (.table hnames.1 hb hleft (List.forall_mem_singleton.1 hkeys.2))
    exact ⟨(hadded.joinedAt hover).pushWhere _,
      sound_push htests' (sound_equalColumns hp ⟨hb, hkeys.1⟩ ⟨ha, owner.spelled_primaryKey hs⟩)⟩

/-- A draft begins with the names of its base table. -/
theorem spelled_withBase (model : Model s) {config : Config} {baseAlias : String}
    (hstem : DocQuery.Spelled p config.aliasStem) (hbase : DocQuery.Spelled p baseAlias)
    (usedAliases : List String) (lastParam : Nat) :
    (withBase model config baseAlias usedAliases lastParam).Spelled p := by
  have hroot : (TablePath.root model.table).Spelled p := .root hp (model.spelled_table hs)
  refine ⟨hstem, hroot, List.forall_mem_singleton.2 hroot, fun path a ha => ?_, hbase,
    List.forall_mem_singleton.2 (.rowsOf hbase), List.forall_mem_nil _, List.forall_mem_nil _⟩
  simp only [aliasAt?, withBase, lookup_cons_eq, List.lookup_nil] at ha
  split at ha
  · cases ha
    exact hbase
  · cases ha

/-- The draft of a sub-query has its base as its only name. -/
theorem Spelled.nestedDraft (h : d.Spelled p) {place : TablePath} (hplace : place.Spelled p)
    (model : Model s) : (d.nestedDraft place model).Spelled p :=
  spelled_withBase hp hs model h.stem (h.newAlias hp (hplace.base hp (model.spelled_table hs))) _ _

/-- A sound sub-query is joined under a new alias. -/
theorem Spelled.embed (h : d.Spelled p) {place : TablePath} (hplace : place.Spelled p)
    {model : Model s} {done : Draft s} (hdone : done.finish.Sound p) :
    (d.embed place model done).Spelled p := by
  have hgiven := h.giveAlias hp (hplace.base hp (model.spelled_table hs))
  -- taking over changes neither names nor clauses
  have htaken : (d.takeOver place model done).Spelled p :=
    ⟨hgiven.stem, hgiven.base, hgiven.paths, hgiven.aliases, hgiven.baseAlias, hgiven.select,
      hgiven.order, hgiven.joins⟩
  exact ((htaken.giveAlias hp hplace).addJoin
    (.derived (htaken.newAlias hp hplace) hdone)).markJoined hplace model

/-! ## Writing -/

omit hp hs in
/-- A spelled entry may be selected. -/
theorem Spelled.addSelect (h : d.Spelled p) {item : SelectItem} (hitem : item.Spelled p) :
    (d.addSelect item).Spelled p := by
  unfold Draft.addSelect
  simp only
  split
  · exact h
  · exact ⟨h.stem, h.base, h.paths, h.aliases, h.baseAlias,
      List.forall_mem_append.2 ⟨h.select, List.forall_mem_singleton.2 hitem⟩, h.order, h.joins⟩

omit hp hs in
/-- A spelled column may be ordered by. -/
theorem Spelled.addOrder (h : d.Spelled p) {path : TablePath} {a name : String}
    (hnamed : d.aliasAt? path = some a) (hname : DocQuery.Spelled p name) (direction : Direction) :
    (d.addOrder path name direction).Spelled p := by
  have hcolumn : QualifiedColumn.Spelled p ⟨a, name⟩ := ⟨h.aliases path a hnamed, hname⟩
  have hordered : ∀ {e : Draft s}, e.Spelled p →
      ({ e with order := e.order ++ [⟨⟨a, name⟩, direction⟩] } : Draft s).Spelled p := fun he =>
    ⟨he.stem, he.base, he.paths, he.aliases, he.baseAlias, he.select,
      List.forall_mem_append.2 ⟨he.order, List.forall_mem_singleton.2 hcolumn⟩, he.joins⟩
  unfold Draft.addOrder
  simp only [columnAt, aliasOf_of_some hnamed]
  split
  · exact hordered h
  · exact hordered (h.addSelect (.column hcolumn))

/-- What is written is spelled, and its tests are sound. -/
theorem Writes.spelled {tests : List Test} (h : Writes allowed d tests e) (hd : d.Spelled p) :
    e.Spelled p ∧ ∀ t ∈ tests, t.Sound p := by
  -- By induction on what is written; only an embedded sub-query has a run of its own.
  induction h with
  | refl d => exact ⟨hd, List.forall_mem_nil _⟩
  | trans _ _ ihFirst ihSecond =>
    rcases ihFirst hd with ⟨he, htests⟩
    rcases ihSecond he with ⟨hf, htests'⟩
    exact ⟨hf, List.forall_mem_append.2 ⟨htests, htests'⟩⟩
  | join step => exact ⟨step.spelled hp hs hd, List.forall_mem_nil _⟩
  | select offers =>
    exact ⟨hd.addSelect (.column (hd.offers hs offers)), List.forall_mem_nil _⟩
  | order offers direction =>
    exact ⟨hd.addOrder offers.named (hd.offers hs offers).2 direction, List.forall_mem_nil _⟩
  | load d path =>
    refine ⟨?_, List.forall_mem_nil _⟩
    unfold addInclude
    split
    · exact hd
    · exact ⟨hd.stem, hd.base, hd.paths, hd.aliases, hd.baseAlias, hd.select, hd.order, hd.joins⟩
  | limit d n =>
    exact ⟨⟨hd.stem, hd.base, hd.paths, hd.aliases, hd.baseAlias, hd.select, hd.order, hd.joins⟩,
      List.forall_mem_nil _⟩
  | offset d n =>
    exact ⟨⟨hd.stem, hd.base, hd.paths, hd.aliases, hd.baseAlias, hd.select, hd.order, hd.joins⟩,
      List.forall_mem_nil _⟩
  | @test d columns values tests offered fills =>
    refine ⟨?_, fun t ht => ?_⟩
    · rw [bindAll_eq]
      exact ⟨hd.stem, hd.base, hd.paths, hd.aliases, hd.baseAlias, hd.select, hd.order, hd.joins⟩
    · rcases fills.shape t ht with ⟨template, cs, ps, rfl, hfits, hcolumns, _⟩
      refine .template hfits.1 (.of_bare hp hfits.2) fun c hc => ?_
      rcases offered c (hcolumns c hc) with ⟨path, hoffers⟩
      exact hd.offers hs hoffers
  | @embed d built done table a relation trees joined named resolved inner correlates ih =>
    have hplace : (derivedPath d table relation.name).Spelled p := by
      rcases freePath_firstFree d.joined table relation.name with ⟨n, hn, _⟩
      rw [derivedPath_eq_freePath, hn]
      exact (hd.paths table joined).derivedCandidate hp
        (Model.spelled_of_relation? hs resolved.found) n
    rcases ih (hd.nestedDraft hp hs hplace relation.target) with ⟨hbuilt, htests⟩
    rcases inner.ledger with ⟨added, joins, hledger⟩
    have hpushed : ∀ t ∈ (built.pushWhere (.all trees)).predicate.leaves, t.Sound p := by
      rw [hledger.leaves_pushWhere]
      exact htests
    rcases correlates.spelled hp hs resolved (hd.aliases table a named) (hbuilt.pushWhere _) hpushed
      with ⟨hdone, hsound⟩
    exact ⟨hd.embed hp hs hplace (hdone.finish hs hsound), List.forall_mem_nil _⟩

end Steps

end Draft

end DocQuery
