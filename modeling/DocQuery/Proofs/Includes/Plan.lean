import DocQuery.Proofs.Includes.Loaded
import DocQuery.Proofs.Schema.Identifiers

namespace DocQuery

/-! # Includes and the relations that are asked for

A client follows the nodes of a plan's tree of includes from the root, name by name. They lead to
the relations that the query asks for, with two exceptions. A derived table whose name is taken gets
a number, and its numbered name stands in the tree instead of the relation's. What a sub-query asks
for is not loaded at all.

* `events_sound`: relations are asked for at spots that lead to them, but for numbered names.
* `includes_resolve`: a node of the includes resolves, or lies on the path of a numbered derived
  table.
* `includes_complete`: which of the relations that are asked for are loaded.
-/

open Draft

variable {s : Schema} {root m n : Model s}

/-! ## Walks -/

namespace Column

/-- A walk goes on where its first part ends. -/
theorem walk_append_of_walk {path : List String} (h : walk m path = some n) (rest : List String) :
    walk m (path ++ rest) = walk n rest := by
  induction path generalizing m with
  | nil =>
    cases h
    rfl
  | cons name path ih =>
    rw [walk] at h
    rw [List.cons_append, walk]
    cases hfound : m.relation? name with
    | none =>
      rw [hfound] at h
      cases h
    | some r =>
      rw [hfound] at h
      exact ih h

/-- Every part of a walk from the start can be walked. -/
theorem isSome_walk_of_prefix {path names : List String} (h : walk m path = some n)
    (hfront : names <+: path) : (walk m names).isSome := by
  induction names generalizing m path with
  | nil => rfl
  | cons name names ih =>
    rcases hfront with ⟨rest, rfl⟩
    rw [List.cons_append, walk] at h
    rw [walk]
    cases hfound : m.relation? name with
    | none =>
      rw [hfound] at h
      cases h
    | some r =>
      rw [hfound] at h
      exact ih h (List.prefix_append _ _)

/-- The rows that a column leads to are those at the end of its segments. -/
theorem LeadsToRows.walk_eq {c : Column s} (h : c.LeadsToRows m n) :
    walk m c.segments = some n := by
  rcases h with ⟨⟨_, hpath, hname⟩, rfl⟩ | ⟨r, ⟨_, k, name, hopen, hname, _, hfound⟩, rfl⟩
  · simp [segments, hpath, hname, walk]
  · rw [segments, hname, Option.toList_some, walk_append_of_walk hopen.walk_eq, walk, hfound]
    rfl

end Column

/-! ## Names of table paths -/

namespace TablePath

/-- A step adds its name, if it has one. -/
theorem relationNames_child {table : TablePath} (hsteps : table.steps ≠ []) (step : PathStep) :
    (table.child step).relationNames = table.relationNames ++ step.relationName?.toList := by
  have hlength : 1 ≤ table.steps.length := List.length_pos_iff.2 hsteps
  rw [relationNames, child, List.drop_append_of_le_length hlength, List.filterMap_append,
    relationNames]
  cases h : step.relationName? <;> simp [h]

/-- A path of relations adds their names. -/
theorem relationNames_join {table : TablePath} (hsteps : table.steps ≠ []) (names : List String) :
    (table.join names).relationNames = table.relationNames ++ names := by
  have hlength : 1 ≤ table.steps.length := List.length_pos_iff.2 hsteps
  have hnames : (names.map PathStep.relation).filterMap PathStep.relationName? = names := by
    rw [List.filterMap_map]
    exact List.filterMap_some
  rw [relationNames, join, List.drop_append_of_le_length hlength, List.filterMap_append, hnames,
    relationNames]

end TablePath

/-- After the names that lead to its owner, the name of a relation stands with a number behind it. -/
def Misnamed (root : Model s) (names : List String) : Prop :=
  ∃ front owner relation number, 2 ≤ number ∧ Column.walk root front = some owner ∧
    (owner.relation? relation).isSome ∧ front ++ [relation ++ "_" ++ toString number] <+: names

/-- Behind a wrong name the path stays wrong. -/
theorem Misnamed.append {names : List String} (h : Misnamed root names) (rest : List String) :
    Misnamed root (names ++ rest) := by
  rcases h with ⟨front, owner, relation, number, htwo, hwalk, hsome, hfront⟩
  exact ⟨front, owner, relation, number, htwo, hwalk, hsome, hfront.trans (List.prefix_append _ _)⟩

/-! ## Spots -/

namespace Spot

/-- The names of the spot lead from the root to the model. The names in its table's path are the
same ones, up to the first derived table that got a number instead of its relation's name. -/
structure Sound (root : Model s) (spot : Spot) (m : Model s) : Prop where
  based : spot.table.steps ≠ []
  walked : Column.walk root spot.names = some m
  straight : spot.renumbered = false → spot.table.relationNames = spot.names
  crooked : spot.renumbered = true → Misnamed root spot.table.relationNames

variable {spot : Spot}

/-- The root is sound: no name leads to it. -/
theorem sound_start (root : Model s) : (Spot.start root).Sound root root where
  based := by simp [start, TablePath.root]
  walked := rfl
  straight := fun _ => rfl
  crooked := fun h => by cases h

/-- Following a column of rows keeps a spot sound. -/
theorem Sound.follow (h : spot.Sound root m) {c : Column s} (hrows : c.LeadsToRows m n) :
    (spot.follow c.segments).Sound root n := by
  have hnames : (spot.follow c.segments).table.relationNames =
      spot.table.relationNames ++ c.segments := TablePath.relationNames_join h.based c.segments
  constructor
  · simp [Spot.follow, TablePath.join, h.based]
  · exact (Column.walk_append_of_walk h.walked _).trans hrows.walk_eq
  · intro hnumbered
    rw [hnames, h.straight hnumbered]
    rfl
  · intro hnumbered
    rw [hnames]
    exact (h.crooked hnumbered).append c.segments

/-- The row that a sub-query picks stands at the first free number of its relation. -/
theorem Sound.derive (h : spot.Sound root m) {r : Relation s} (hfound : m.relation? r.name = some r)
    (claimed : List TablePath) : (spot.derive claimed r.name).Sound root r.target := by
  rcases freePath_firstFree claimed spot.table r.name with ⟨number, hpath, hfirst⟩
  have htable : (spot.derive claimed r.name).table = spot.table.child
      (.derived (if number = 1 then r.name else r.name ++ "_" ++ toString number)) := hpath
  have hnames : (spot.derive claimed r.name).table.relationNames = spot.table.relationNames ++
      [if number = 1 then r.name else r.name ++ "_" ++ toString number] := by
    rw [htable, TablePath.relationNames_child h.based]
    rfl
  have hwalked : Column.walk root (spot.names ++ [r.name]) = some r.target := by
    rw [Column.walk_append_of_walk h.walked, Column.walk, hfound]
    rfl
  have hbased : (spot.derive claimed r.name).table.steps ≠ [] := by
    rw [htable]
    simp [TablePath.child]
  by_cases hone : number = 1
  · -- the name of the relation is free
    have hfree : spot.table.child (.derived r.name) ∉ claimed := by
      have hfree := hfirst.free
      rw [hone] at hfree
      exact hfree
    rw [if_pos hone] at hnames
    refine ⟨hbased, hwalked, fun hnumbered => ?_, fun hnumbered => ?_⟩
    · rw [hnames, h.straight (Bool.or_eq_false_iff.1 hnumbered).1]
      rfl
    · have hbefore : spot.renumbered = true := by
        simpa [Spot.derive, hfree] using hnumbered
      rw [hnames]
      exact (h.crooked hbefore).append [r.name]
  · -- the name of the relation is taken, so a number follows it
    have htwo : 2 ≤ number := by
      have hpos := hfirst.pos
      omega
    have htaken : spot.table.child (.derived r.name) ∈ claimed :=
      hfirst.least 1 (Nat.le_refl 1) (by omega)
    rw [if_neg hone] at hnames
    refine ⟨hbased, hwalked, fun hnumbered => ?_, fun _ => ?_⟩
    · simp [Spot.derive, htaken] at hnumbered
    · rw [hnames]
      cases hbefore : spot.renumbered with
      | true => exact (h.crooked hbefore).append _
      | false =>
        refine ⟨spot.names, m, r.name, number, htwo, h.walked, ?_, ?_⟩
        · rw [hfound]
          rfl
        · rw [h.straight hbefore]

end Spot

namespace Condition

mutual

/-- What an admitted condition loads is at sound spots. -/
theorem events_sound (c : Condition s) {m : Model s} {spot target : Spot} {p : Progress}
    (hc : c.Admitted m) (h : spot.Sound root m) (htarget : .load target ∈ c.events spot p) :
    ∃ n, target.Sound root n := by
  cases c with
  | relationJoin targets =>
    cases hc with
    | relationJoin reached nested => exact eventsOfJoins_sound targets reached nested h htarget
  -- the relation of a derived table is one of this model, which need not be looked up behind hops
  | derivedJoin column relation subquery conditions =>
    cases hc with
    | derivedJoin own direct reached rows nested =>
      have hfound : m.relation? relation.name = some relation := by
        rcases reached with ⟨_, k, name, hopen, _, _, hfound⟩
        rw [own] at hopen
        cases hopen
        rw [(Model.relation?_resolved hfound).2.2]
        exact hfound
      rw [events, List.mem_cons] at htarget
      rcases htarget with hother | htarget
      · cases hother
      · exact eventsOfEach_sound conditions nested (h.derive hfound p.derived) htarget
  | select targets =>
    cases hc with
    | select reached nested => exact eventsOfSelects_sound targets reached nested h htarget
  -- an order asks for no relation
  | order entries =>
    rw [events] at htarget
    rcases List.mem_map.1 htarget with ⟨_, _, hother⟩
    cases hother
  | _ => cases htarget

/-- Every relation that conditions ask for is asked for at a sound spot. -/
theorem eventsOfEach_sound (conditions : List (Condition s)) {m : Model s} {spot target : Spot}
    {p : Progress} (hc : ∀ c ∈ conditions, c.Admitted m) (h : spot.Sound root m)
    (htarget : .load target ∈ eventsOfEach conditions spot p) : ∃ n, target.Sound root n := by
  cases conditions with
  | nil => cases htarget
  | cons condition conditions =>
    rcases admitted_of_cons hc with ⟨hcondition, hconditions⟩
    rcases List.mem_append.1 htarget with htarget | htarget
    · exact events_sound condition hcondition h htarget
    · exact eventsOfEach_sound conditions hconditions h htarget

/-- So is every one in documents. -/
theorem eventsOfDocuments_sound (documents : List (List (Condition s))) {m : Model s}
    {spot target : Spot} {p : Progress} (hc : ∀ document ∈ documents, ∀ c ∈ document, c.Admitted m)
    (h : spot.Sound root m) (htarget : .load target ∈ eventsOfDocuments documents spot p) :
    ∃ n, target.Sound root n := by
  cases documents with
  | nil => cases htarget
  | cons document documents =>
    rcases List.mem_append.1 htarget with htarget | htarget
    · exact eventsOfEach_sound document (hc document List.mem_cons_self) h htarget
    · exact eventsOfDocuments_sound documents
        (fun document hdocument => hc document (List.mem_cons_of_mem _ hdocument)) h htarget

/-- And in the targets of a relation join. -/
theorem eventsOfJoins_sound (targets : List (Target s (List (List (Condition s))))) {m : Model s}
    {spot target : Spot} {p : Progress}
    (reached : ∀ t ∈ targets, ∃ n, t.column.LeadsToRows m n)
    (nested : ∀ t ∈ targets, ∀ n, t.column.LeadsToRows m n →
      ∀ document ∈ t.nested, ∀ c ∈ document, c.Admitted n)
    (h : spot.Sound root m) (htarget : .load target ∈ eventsOfJoins targets spot p) :
    ∃ n, target.Sound root n := by
  cases targets with
  | nil => cases htarget
  | cons first targets =>
    rcases first with ⟨column, documents⟩
    rcases List.mem_append.1 htarget with htarget | htarget
    · rcases reached ⟨column, documents⟩ List.mem_cons_self with ⟨n, hrows⟩
      exact eventsOfDocuments_sound documents
        (nested ⟨column, documents⟩ List.mem_cons_self n hrows) (h.follow hrows) htarget
    · exact eventsOfJoins_sound targets (fun t ht => reached t (List.mem_cons_of_mem _ ht))
        (fun t ht => nested t (List.mem_cons_of_mem _ ht)) h htarget

/-- And in the targets of a selection. -/
theorem eventsOfSelects_sound (targets : List (Target s (List (Condition s)))) {m : Model s}
    {spot target : Spot} {p : Progress}
    (reached : ∀ t ∈ targets, (t.column.LeadsToColumn m ∧ t.nested = []) ∨
      t.column.isColumn = false ∧ ∃ r, t.column.LeadsToRelation m r)
    (nested : ∀ t ∈ targets, ∀ r, t.column.LeadsToRelation m r →
      ∀ c ∈ t.nested, c.Admitted r.target)
    (h : spot.Sound root m) (htarget : .load target ∈ eventsOfSelects targets spot p) :
    ∃ n, target.Sound root n := by
  cases targets with
  | nil => cases htarget
  | cons first targets =>
    rcases first with ⟨column, conditions⟩
    rw [eventsOfSelects, List.mem_append, List.mem_cons] at htarget
    -- the target itself, the conditions in it, or a later target
    rcases htarget with (hfirst | hnested) | hrest
    · rcases reached ⟨column, conditions⟩ List.mem_cons_self with
        ⟨hcolumn, _⟩ | ⟨hcolumn, r, hr⟩
      · rw [if_pos hcolumn.isColumn_eq] at hfirst
        cases hfirst
      · rw [if_neg (Bool.eq_false_iff.1 hcolumn)] at hfirst
        cases hfirst
        exact ⟨r.target, h.follow (.inr ⟨r, hr, rfl⟩)⟩
    · rcases reached ⟨column, conditions⟩ List.mem_cons_self with ⟨_, hnil⟩ | ⟨_, r, hr⟩
      · have hnil : conditions = [] := hnil
        rw [hnil] at hnested
        cases hnested
      · exact eventsOfEach_sound conditions (nested ⟨column, conditions⟩ List.mem_cons_self r hr)
          (h.follow (.inr ⟨r, hr, rfl⟩)) hnested
    · exact eventsOfSelects_sound targets (fun t ht => reached t (List.mem_cons_of_mem _ ht))
        (fun t ht => nested t (List.mem_cons_of_mem _ ht)) h hrest

end

end Condition

/-- The name of a relation with a number behind it is the name of no relation of the same model. -/
def Schema.Unnumbered (s : Schema) : Prop :=
  ∀ (m : Model s) (relation : String) (number : Nat), 2 ≤ number →
    (m.relation? relation).isSome → m.relation? (relation ++ "_" ++ toString number) = none

/-- Numbered names have underscores. -/
theorem Schema.unnumbered_of_declared (h : ∀ entry ∈ s.models.entries,
    ∀ declared ∈ entry.2.relations.entries, '_' ∉ declared.1.toList) : s.Unnumbered := by
  intro m relation number _ _
  by_contra hfound
  obtain ⟨r, hr⟩ := Option.ne_none_iff_exists'.1 hfound
  have hdeclared := Dictionary.mem_of_find? (Model.declared_of_relation? hr)
  refine h _ (Dictionary.mem_of_find? m.found) _ hdeclared ?_
  simp

/-! ## Plans -/

namespace Query

variable {model : String} {query : Json} {config : Config} {conditions : List (Condition s)}
  {done : Draft s} {plan : Plan}

/-- The relations that are asked for outside of sub-queries are at sound spots. -/
theorem Compiles.sound_requests (h : Compiles s model query config root conditions done plan)
    {r : Request} (hr : r ∈ Condition.requests root conditions) (hkept : r.inSubquery = false) :
    ∃ n, r.toSpot.Sound root n := by
  rcases r with ⟨spot, inSubquery⟩
  cases hkept
  exact Condition.eventsOfEach_sound conditions h.admitted (Spot.sound_start root)
    (Event.mem_requests_iff.1 hr)

/-- Every node of a plan's tree of includes can be followed from the root, except on the way to
relations asked for below a derived table that got a number. Where numbered names are no relations,
there is indeed a node on each such way that cannot be followed. -/
theorem includes_resolve (h : compile s model query config = .ok plan) :
    ∃ root conditions done, Compiles s model query config root conditions done plan ∧
      (∀ names, (plan.includes.find? names).isSome → (Column.walk root names).isSome ∨
        ∃ r ∈ Condition.requests root conditions, r.inSubquery = false ∧ r.renumbered = true ∧
          names <+: r.table.relationNames) ∧
      (s.Unnumbered → ∀ r ∈ Condition.requests root conditions, r.inSubquery = false →
        r.renumbered = true → ∃ names, names <+: r.table.relationNames ∧
          (plan.includes.find? names).isSome ∧ Column.walk root names = none) := by
  rcases compile_eq_ok_iff.1 h with ⟨root, conditions, done, hcompiles⟩
  refine ⟨root, conditions, done, hcompiles, fun names hnode => ?_, fun hschema r hr hkept hnumber => ?_⟩
  · rcases hcompiles.isSome_find?_includes.1 hnode with rfl | ⟨r, hr, hkept, hfront⟩
    · exact .inl rfl
    · rcases hcompiles.sound_requests hr hkept with ⟨n, hsound⟩
      -- a request below unnumbered tables is a path of relations; one below a numbered table is the
      -- exception
      cases hnumber : r.renumbered with
      | false =>
        rw [hsound.straight hnumber] at hfront
        exact .inl (Column.isSome_walk_of_prefix hsound.walked hfront)
      | true => exact .inr ⟨r, hr, hkept, hnumber, hfront⟩
  · rcases hcompiles.sound_requests hr hkept with ⟨n, hsound⟩
    rcases hsound.crooked hnumber with
      ⟨front, owner, relation, number, htwo, hwalk, hsome, hfront⟩
    refine ⟨_, hfront, hcompiles.isSome_find?_includes.2 (.inr ⟨r, hr, hkept, hfront⟩), ?_⟩
    rw [Column.walk_append_of_walk hwalk, Column.walk, hschema owner relation number htwo hsome]

/-- What a plan loads is what the query asks for outside of sub-queries, and nothing besides. A
relation that is asked for there, not below a derived table that got a number, is a node under the
names of the relations that lead to it. -/
theorem includes_complete (h : compile s model query config = .ok plan) :
    ∃ root conditions done, Compiles s model query config root conditions done plan ∧
      (∀ names, (plan.includes.find? names).isSome ↔ names = [] ∨
        ∃ r ∈ Condition.requests root conditions, r.inSubquery = false ∧
          names <+: r.table.relationNames) ∧
      ∀ r ∈ Condition.requests root conditions, r.inSubquery = false → r.renumbered = false →
        (plan.includes.find? r.names).isSome := by
  rcases compile_eq_ok_iff.1 h with ⟨root, conditions, done, hcompiles⟩
  refine ⟨root, conditions, done, hcompiles, fun names => hcompiles.isSome_find?_includes,
    fun r hr hkept hnumber => ?_⟩
  rcases hcompiles.sound_requests hr hkept with ⟨n, hsound⟩
  have hnames : r.names <+: r.table.relationNames := by rw [hsound.straight hnumber]
  exact hcompiles.isSome_find?_includes.2 (.inr ⟨r, hr, hkept, hnames⟩)

end Query

/-! ## Queries that load relations -/

namespace Query

/-- The requests of a query, as far as it can be read. -/
def requests? (s : Schema) (model : String) (query : Json) : Option (List Request) :=
  (s.model? model).bind fun root =>
    (Condition.ofDocument query root).toOption.map (Condition.requests root)

/-- The requests can be computed from the query alone. -/
theorem Compiles.requests?_eq {model : String} {query : Json} {config : Config}
    {conditions : List (Condition s)} {done : Draft s} {plan : Plan}
    (h : Compiles s model query config root conditions done plan) :
    requests? s model query = some (Condition.requests root conditions) := by
  rw [requests?, h.root_eq, Option.bind_some, h.conditions_eq]
  rfl

/-- A query that loads relations at the top, in nested documents, below an included relation and on
the row of a sub-query. -/
def loading : Json :=
  .object
    [("articles=>", .object [("author", .null)]),
      ("friends", .object [("surname=", .string "Doe"), ("articles", .null)]),
      ("articles()", .array [.object [("order:", .string "rating")],
        .object [("author", .object [("readings", .null)])]])]

/-- What `loading` selects, and the relations that it asks for. -/
theorem loading_computed :
    (compile Schema.people "Person" loading {}).toOption.map (fun plan => plan.select.length) =
      some 1 ∧
    (requests? Schema.people "Person" loading).map
      (fun requests => requests.map fun r => (r.names, r.inSubquery, r.renumbered)) = some
        [(["articles", "author"], false, false), (["friends"], false, false),
          (["friends", "articles"], false, false), (["articles", "author"], false, false),
          (["articles", "author", "readings"], false, false)] := by
  decide +kernel

/-- Two sub-queries over one relation, the second with a relation to load on its row. -/
def articlesTwice : Json :=
  .object
    [("1:articles()", .array [.object []]),
      ("2:articles()", .array [.object [], .object [("author", .null)]])]

/-- The second sub-query loads below its numbered name, which is no relation of the model. -/
theorem articlesTwice_computed :
    (compile Schema.people "Person" articlesTwice {}).toOption.map
      (fun plan => (plan.includes.paths, (plan.includes.find? ["articles_2"]).isSome)) =
        some (["articles_2.author"], true) ∧
    (requests? Schema.people "Person" articlesTwice).map
      (fun requests => requests.map fun r => (r.inSubquery, r.renumbered)) = some [(false, true)] ∧
    (Schema.people.model? "Person").map
      (fun root => (Column.walk root ["articles_2"]).isNone) = some true := by
  decide +kernel

/-- No derived table of the first query gets a number, so all that it loads can be followed. The
second query asks for a relation below a numbered one, and numbered names are no relations of the
schema. -/
theorem includes_resolve_loading :
    (∃ plan root, compile Schema.people "Person" loading {} = .ok plan ∧
      Schema.people.model? "Person" = some root ∧
        ∀ names, (plan.includes.find? names).isSome → (Column.walk root names).isSome) ∧
    ∃ plan root, compile Schema.people "Person" articlesTwice {} = .ok plan ∧
      Schema.people.model? "Person" = some root ∧
        ∃ names, (plan.includes.find? names).isSome ∧ Column.walk root names = none := by
  -- without a numbered table every node resolves, with one there is a node that does not
  constructor
  · obtain ⟨hselect, hrequests⟩ := loading_computed
    obtain ⟨plan, hplan, _⟩ := exists_of_map_toOption hselect
    obtain ⟨root, conditions, done, hdone, hnodes, _⟩ := includes_resolve hplan
    refine ⟨plan, root, hplan, hdone.root_eq, fun names hnode => (hnodes names hnode).resolve_right ?_⟩
    rintro ⟨r, hr, _, hnumber, _⟩
    rw [hdone.requests?_eq, Option.map_some, Option.some.injEq] at hrequests
    have hmem := List.mem_map_of_mem
      (f := fun r : Request => (r.names, r.inSubquery, r.renumbered)) hr
    rw [hrequests, hnumber] at hmem
    simp at hmem
  · obtain ⟨hpaths, hrequests, -⟩ := articlesTwice_computed
    obtain ⟨plan, hplan, _⟩ := exists_of_map_toOption hpaths
    obtain ⟨root, conditions, done, hdone, _, hcrooked⟩ := includes_resolve hplan
    have hschema : Schema.people.Unnumbered := Schema.unnumbered_of_declared (by decide +kernel)
    rw [hdone.requests?_eq, Option.map_some, Option.some.injEq, List.map_eq_singleton_iff] at hrequests
    obtain ⟨r, hr, hparts⟩ := hrequests
    rw [Prod.mk.injEq] at hparts
    obtain ⟨names, _, hnode, hnone⟩ :=
      hcrooked hschema r (hr ▸ List.mem_singleton_self r) hparts.1 hparts.2
    exact ⟨plan, root, hplan, hdone.root_eq, names, hnode, hnone⟩

/-- All relations that the query asks for are loaded. -/
theorem includes_complete_loading : ∃ plan, compile Schema.people "Person" loading {} = .ok plan ∧
    ∀ names ∈ [["articles", "author"], ["friends"], ["friends", "articles"],
      ["articles", "author", "readings"]], (plan.includes.find? names).isSome := by
  rcases loading_computed with ⟨hselect, hrequests⟩
  rcases exists_of_map_toOption hselect with ⟨plan, hplan, _⟩
  rcases includes_complete hplan with ⟨root, conditions, done, hcompiles, _, hnodes⟩
  rw [hcompiles.requests?_eq, Option.map_some, Option.some.injEq] at hrequests
  have hnode : ∀ names, (names, false, false) ∈ (Condition.requests root conditions).map
      (fun r => (r.names, r.inSubquery, r.renumbered)) → (plan.includes.find? names).isSome := by
    intro names hmem
    rcases List.mem_map.1 hmem with ⟨r, hr, hparts⟩
    simp only [Prod.mk.injEq] at hparts
    rcases hparts with ⟨rfl, hkept, hnumber⟩
    exact hnodes r hr hkept hnumber
  rw [hrequests] at hnode
  refine ⟨plan, hplan, fun names hnames => hnode names ?_⟩
  simp only [List.mem_cons, List.not_mem_nil, or_false] at hnames
  rcases hnames with rfl | rfl | rfl | rfl <;> simp

/-- The second derived table is number two, and so is the node that is loaded: there is no relation
of this name. -/
theorem includes_articlesTwice :
    ∃ plan root, compile Schema.people "Person" articlesTwice {} = .ok plan ∧
      Schema.people.model? "Person" = some root ∧
        plan.includes.paths = ["articles_2.author"] ∧
          (plan.includes.find? ["articles_2"]).isSome ∧ Column.walk root ["articles_2"] = none := by
  rcases articlesTwice_computed with ⟨hpaths, -, hwalk⟩
  rcases exists_of_map_toOption hpaths with ⟨plan, hplan, hplanPaths⟩
  rcases Option.map_eq_some_iff.1 hwalk with ⟨root, hroot, hnone⟩
  rw [Prod.mk.injEq] at hplanPaths
  exact ⟨plan, root, hplan, hroot, hplanPaths.1, hplanPaths.2, Option.isNone_iff_eq_none.1 hnone⟩

/-- A sub-query that asks for a relation of the row that it picks. -/
def authorInSubquery : Json :=
  .object [("articles()", .array [.object [("author", .null)]])]

/-- The relation is asked for, and nothing is loaded. -/
theorem includes_authorInSubquery :
    ∃ plan, compile Schema.people "Person" authorInSubquery {} = .ok plan ∧
      (requests? Schema.people "Person" authorInSubquery).map
        (fun requests => requests.map fun r => r.names) = some [["articles", "author"]] ∧
      plan.includes.find? ["articles", "author"] = none ∧ plan.includes.paths = [] := by
  have hpaths : (compile Schema.people "Person" authorInSubquery {}).toOption.map
      (fun plan => ((plan.includes.find? ["articles", "author"]).isNone, plan.includes.paths)) =
        some (true, []) := by decide +kernel
  rcases exists_of_map_toOption hpaths with ⟨plan, hplan, hplanPaths⟩
  rw [Prod.mk.injEq] at hplanPaths
  exact ⟨plan, hplan, by decide +kernel, Option.isNone_iff_eq_none.1 hplanPaths.1, hplanPaths.2⟩

end Query

end DocQuery
