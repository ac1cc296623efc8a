import DocQuery.Proofs.Document.Reading
import DocQuery.Proofs.Schema.Resolve
import DocQuery.Query

namespace DocQuery

/-! # What queries may reach

A condition is `Admitted` on a model if all its names lead somewhere from there and none of them is
hidden by the model that it is looked up on, in nested documents as at the top. Every condition of
a parsed query is admitted on the model of its document.

* `entryGives_admitted`: an entry gives an admitted condition, whatever its rule.
* `admitted_of_ofDocument`: so does a document, with all that is nested in it.
* `admitted_of_parse`: and a query, on the model that it is about.
-/

variable {s : Schema}

/-! ## Paths and columns -/

/-- The relations of the path lead from one model to the other, and no model on the way hides the
name that is looked up on it. -/
inductive OpenPath : Model s → List String → Model s → Prop where
  | here (m : Model s) : OpenPath m [] m
  | step {m n : Model s} {name : String} {path : List String} {r : Relation s}
      (shown : name ∉ m.definition.hidden) (found : m.relation? name = some r)
      (rest : OpenPath r.target path n) : OpenPath m (name :: path) n

namespace Column

/-- The column is one that the model at the end of an open path declares and does not hide. -/
def LeadsToColumn (m : Model s) (c : Column s) : Prop :=
  c.model = m ∧ ∃ n name, OpenPath m c.path n ∧ c.name = some name ∧
    name ∉ n.definition.hidden ∧ ∃ d ∈ n.definition.columns, d.name = name

/-- The column names a relation that the model at the end of an open path has and does not hide. -/
def LeadsToRelation (m : Model s) (c : Column s) (r : Relation s) : Prop :=
  c.model = m ∧ ∃ n name, OpenPath m c.path n ∧ c.name = some name ∧
    name ∉ n.definition.hidden ∧ n.relation? name = some r

/-- The column stands for the model itself. -/
def IsSelf (m : Model s) (c : Column s) : Prop :=
  c.model = m ∧ c.path = [] ∧ c.name = none

/-- Followed as a relation, the column leads to the rows of `target`. -/
def LeadsToRows (m : Model s) (c : Column s) (target : Model s) : Prop :=
  (c.IsSelf m ∧ target = m) ∨ ∃ r, c.LeadsToRelation m r ∧ r.target = target

end Column

namespace Condition

/-- On the model, all names of the condition lead somewhere, and none is hidden. -/
inductive Admitted : Model s → Condition s → Prop where
  | comparison {m : Model s} {rule template : String} {columns : List (Column s)}
      {values : List Operand} (reached : ∀ c ∈ columns, c.LeadsToColumn m) :
      Admitted m (.comparison rule template columns values)
  | presence {m : Model s} {rule template : String} {columns : List (Column s)}
      (reached : ∀ c ∈ columns, c.LeadsToColumn m) : Admitted m (.presence rule template columns)
  | membership {m : Model s} {rule template : String} {columns : List (Column s)}
      {values : Operand} (reached : ∀ c ∈ columns, c.LeadsToColumn m) :
      Admitted m (.membership rule template columns values)
  | range {m : Model s} {rule template : String} {columns : List (Column s)} {low high : Operand}
      (reached : ∀ c ∈ columns, c.LeadsToColumn m) :
      Admitted m (.range rule template columns low high)
  | overlap {m : Model s} {rule template : String} {columns : List (Column s)} {span : TimeSpan}
      (reached : ∀ c ∈ columns, c.LeadsToColumn m) :
      Admitted m (.overlap rule template columns span)
  | relationJoin {m : Model s} {targets : List (Target s (List (List (Condition s))))}
      (reached : ∀ t ∈ targets, ∃ target, t.column.LeadsToRows m target)
      (nested : ∀ t ∈ targets, ∀ target, t.column.LeadsToRows m target →
        ∀ document ∈ t.nested, ∀ c ∈ document, Admitted target c) :
      Admitted m (.relationJoin targets)
  | derivedJoin {m : Model s} {column : Column s} {relation : Relation s}
      {subquery conditions : List (Condition s)} (own : column.path = [])
      (direct : relation.hops? = none) (reached : column.LeadsToRelation m relation)
      (rows : ∀ c ∈ subquery, Admitted relation.target c)
      (nested : ∀ c ∈ conditions, Admitted relation.target c) :
      Admitted m (.derivedJoin column relation subquery conditions)
  | select {m : Model s} {targets : List (Target s (List (Condition s)))}
      (reached : ∀ t ∈ targets, (t.column.LeadsToColumn m ∧ t.nested = []) ∨
        t.column.isColumn = false ∧ ∃ r, t.column.LeadsToRelation m r)
      (nested : ∀ t ∈ targets, ∀ r, t.column.LeadsToRelation m r →
        ∀ c ∈ t.nested, Admitted r.target c) :
      Admitted m (.select targets)
  | order {m : Model s} {entries : List (Column s × Direction)}
      (reached : ∀ e ∈ entries, e.1.LeadsToColumn m) : Admitted m (.order entries)
  | limit {m : Model s} (n : Nat) : Admitted m (.limit n)
  | offset {m : Model s} (n : Nat) : Admitted m (.offset n)

end Condition

/-- An open path can be walked. -/
theorem OpenPath.walk_eq {m n : Model s} {path : List String} (h : OpenPath m path n) :
    Column.walk m path = some n := by
  induction h with
  | here m => rfl
  | step _ found _ ih =>
    rw [Column.walk, found]
    exact ih

namespace Column

/-- A name is open unless its model hides it. -/
theorem isProtected_eq_false_iff {m : Model s} {name : String} :
    m.isProtected name = false ↔ name ∉ m.definition.hidden := by
  rw [Model.isProtected, ← Bool.not_eq_true, List.contains_iff_mem]

/-- A path that exists and on which nothing is protected is open, and so is the name at its end. -/
theorem openPath_of_walk {m n : Model s} {path : List String} {name : Option String}
    (hwalk : walk m path = some n) (hopen : protectedFrom m name path = false) :
    OpenPath m path n ∧ ∀ last ∈ name, last ∉ n.definition.hidden := by
  -- Walking and looking for hidden names go along the path together, hop by hop.
  induction path generalizing m with
  | nil =>
    rw [walk, Option.some.injEq] at hwalk
    subst hwalk
    refine ⟨.here m, fun last hlast => ?_⟩
    rw [Option.mem_def] at hlast
    subst hlast
    exact isProtected_eq_false_iff.1 hopen
  | cons hop path ih =>
    rw [walk] at hwalk
    rw [protectedFrom] at hopen
    -- the hop leads on, and is looked up on the model that may hide it
    split at hwalk
    · rename_i r hr
      split at hopen
      · cases hopen
      · rename_i hhop
        rw [hr] at hopen
        rcases ih hwalk hopen with ⟨hrest, hlast⟩
        exact ⟨.step (isProtected_eq_false_iff.1 (Bool.not_eq_true _ ▸ hhop)) hr hrest, hlast⟩
    · cases hwalk

/-- A column is allowed unless one of its names is hidden. -/
theorem checkAllowed_eq_ok_iff {c : Column s} : c.checkAllowed = .ok () ↔ c.isProtected = false := by
  unfold checkAllowed
  cases c.isProtected <;> simp

/-- A checked column is one that a model declares and no model on the way hides. -/
theorem leadsToColumn_of_check {c : Column s} (hcolumn : c.isColumn = true)
    (hallowed : c.checkAllowed = .ok ()) : c.LeadsToColumn c.model := by
  have hopen := checkAllowed_eq_ok_iff.1 hallowed
  unfold isColumn at hcolumn
  split at hcolumn
  · rename_i n name hterminal hname
    rcases openPath_of_walk hterminal hopen with ⟨hpath, hlast⟩
    rcases List.any_eq_true.1 hcolumn with ⟨d, hd, hdname⟩
    exact ⟨rfl, n, name, hpath, hname, hlast name hname, d, hd, by simpa using hdname⟩
  · cases hcolumn

/-- A relation that queries may reach is one that a model has and no model on the way hides. -/
theorem leadsToRelation_of_check {c : Column s} {r : Relation s} (hrelation : c.relation? = some r)
    (hallowed : c.checkAllowed = .ok ()) : c.LeadsToRelation c.model r := by
  have hopen := checkAllowed_eq_ok_iff.1 hallowed
  unfold relation? at hrelation
  split at hrelation
  · rename_i n name hterminal hname
    rcases openPath_of_walk hterminal hopen with ⟨hpath, hlast⟩
    exact ⟨rfl, n, name, hpath, hname, hlast name hname, hrelation⟩
  · cases hrelation

/-- What leads to a column names one. -/
theorem LeadsToColumn.isColumn_eq {m : Model s} {c : Column s} (h : c.LeadsToColumn m) :
    c.isColumn = true := by
  rcases h with ⟨rfl, n, name, hopen, hname, _, definition, hmem, hdefinition⟩
  simp only [isColumn, terminal?, hopen.walk_eq, hname]
  exact List.any_eq_true.2 ⟨definition, hmem, by simpa using hdefinition⟩

/-- What leads to a relation names it. -/
theorem LeadsToRelation.relation?_eq {m : Model s} {c : Column s} {r : Relation s}
    (h : c.LeadsToRelation m r) : c.relation? = some r := by
  rcases h with ⟨rfl, n, name, hpath, hname, _, hfound⟩
  simp only [relation?, terminal?, hpath.walk_eq, hname, hfound]

/-- A relation that a column names itself is one of the column's model. -/
theorem LeadsToRelation.resolved_owner {m : Model s} {c : Column s} {r : Relation s}
    (h : c.LeadsToRelation m r) (own : c.path = []) : r.Resolved ∧ r.owner = m := by
  rcases h with ⟨_, n, name, hopen, _, _, hfound⟩
  rw [own] at hopen
  cases hopen
  rcases Model.relation?_resolved hfound with ⟨hresolved, howner, _⟩
  exact ⟨hresolved, howner⟩

/-- What leads to rows names a relation or the table itself. -/
theorem LeadsToRows.relationTarget?_eq {m target : Model s} {c : Column s}
    (h : c.LeadsToRows m target) : c.relationTarget? = some target := by
  rcases h with ⟨⟨rfl, hpath, hname⟩, rfl⟩ | ⟨r, hr, rfl⟩
  · simp only [relationTarget?, hname, terminal?, hpath, walk]
  · have hrelation := hr.relation?_eq
    rcases hr with ⟨_, _, name, _, hname, _⟩
    simp only [relationTarget?, hname, hrelation, Option.map_some]

/-- A column that names a relation is followed to the relation's target. -/
theorem relationTarget?_of_relation? {c : Column s} {r : Relation s} (h : c.relation? = some r) :
    c.relationTarget? = some r.target := by
  cases hname : c.name with
  | none =>
    simp only [relation?, hname] at h
    cases hterminal : c.terminal? <;> simp [hterminal] at h
  | some name => simp only [relationTarget?, hname, h, Option.map_some]

/-- Columns that have been checked lead to columns of the model that they are read on. -/
theorem leadsToColumn_of_checkAll {m : Model s} {columns : List (Column s)}
    (hmodel : ∀ c ∈ columns, c.model = m) (h : checkAll columns = .ok ()) :
    ∀ c ∈ columns, c.LeadsToColumn m := by
  induction columns with
  | nil =>
    intro c hc
    cases hc
  | cons first columns ih =>
    rw [checkAll, bind_eq_ok_iff] at h
    rcases h with ⟨_, hfirst, hrest⟩
    intro c hc
    -- each column has been checked, the first one or a later one
    rcases List.mem_cons.1 hc with rfl | hc
    · rw [check] at hfirst
      split at hfirst
      · rename_i hcolumn
        exact hmodel c List.mem_cons_self ▸ leadsToColumn_of_check hcolumn hfirst
      · cases hfirst
    · exact ih (fun d hd => hmodel d (List.mem_cons_of_mem _ hd)) hrest c hc

/-- A column as it is read: without a name it has no path either. -/
def ReadOn (m : Model s) (c : Column s) : Prop :=
  c.model = m ∧ (c.name = none → c.path = [])

/-- A column is read on the model that it is looked up on. -/
theorem ofText_readOn (m : Model s) (spec : String) : (ofText m spec).ReadOn m := by
  refine ⟨rfl, fun hname => ?_⟩
  rw [ofText, List.getLast?_eq_none_iff] at hname
  simp only [ofText, hname, List.dropLast_nil]

end Column

/-! ## Rules -/

namespace Condition

variable {m : Model s} {columns : List (Column s)} {value : Json}
  {readers : List (DocumentReader s)} {c : Condition s}

/-- The columns of a comparison are checked before its value is bound. -/
theorem admitted_of_ofComparison {rule template : String} {temporal : Bool}
    (hcolumns : ∀ c ∈ columns, c.ReadOn m)
    (h : ofComparison rule template temporal columns value = .ok c) : c.Admitted m := by
  simp only [ofComparison, bind_eq_ok_iff, pure_eq_ok_iff] at h
  rcases h with ⟨_, hcheck, _, _, values, _, rfl⟩
  exact .comparison (Column.leadsToColumn_of_checkAll (fun c hc => (hcolumns c hc).1) hcheck)

/-- A test of presence has only columns to check. -/
theorem admitted_of_ofPresence {rule template : String} (hcolumns : ∀ c ∈ columns, c.ReadOn m)
    (h : ofPresence rule template columns = .ok c) : c.Admitted m := by
  simp only [ofPresence, bind_eq_ok_iff, pure_eq_ok_iff] at h
  rcases h with ⟨_, hcheck, rfl⟩
  exact .presence (Column.leadsToColumn_of_checkAll (fun c hc => (hcolumns c hc).1) hcheck)

/-- The columns of a membership test are checked before its values are bound. -/
theorem admitted_of_ofMembership {rule template : String} (hcolumns : ∀ c ∈ columns, c.ReadOn m)
    (h : ofMembership rule template columns value = .ok c) : c.Admitted m := by
  simp only [ofMembership, bind_eq_ok_iff, pure_eq_ok_iff] at h
  rcases h with ⟨_, hcheck, _, _, values, _, rfl⟩
  exact .membership (Column.leadsToColumn_of_checkAll (fun c hc => (hcolumns c hc).1) hcheck)

/-- The columns of a range are checked before its ends are bound. -/
theorem admitted_of_ofRange {rule template : String} (hcolumns : ∀ c ∈ columns, c.ReadOn m)
    (h : ofRange rule template columns value = .ok c) : c.Admitted m := by
  simp only [ofRange, bind_eq_ok_iff] at h
  rcases h with ⟨_, hcheck, h⟩
  split at h
  · simp only [bind_eq_ok_iff, pure_eq_ok_iff] at h
    rcases h with ⟨low, _, high, _, rfl⟩
    exact .range (Column.leadsToColumn_of_checkAll (fun c hc => (hcolumns c hc).1) hcheck)
  · cases h

/-- The columns of an overlap are checked before its span is read. -/
theorem admitted_of_ofOverlap {rule template : String} (hcolumns : ∀ c ∈ columns, c.ReadOn m)
    (h : ofOverlap rule template columns value = .ok c) : c.Admitted m := by
  simp only [ofOverlap, bind_eq_ok_iff] at h
  rcases h with ⟨_, hcheck, h⟩
  split at h
  · cases h
  · simp only [bind_eq_ok_iff, pure_eq_ok_iff] at h
    rcases h with ⟨span, _, rfl⟩
    exact .overlap (Column.leadsToColumn_of_checkAll (fun c hc => (hcolumns c hc).1) hcheck)

/-- The rows that a column is followed to, when that is allowed. -/
theorem leadsToRows_of_check {column : Column s} {target : Model s} (hcolumn : column.ReadOn m)
    (htarget : column.relationTarget? = some target) (hallowed : column.checkAllowed = .ok ()) :
    column.LeadsToRows m target := by
  rcases hcolumn with ⟨rfl, hself⟩
  unfold Column.relationTarget? at htarget
  split at htarget
  · rw [Option.map_eq_some_iff] at htarget
    rcases htarget with ⟨r, hr, rfl⟩
    exact .inr ⟨r, Column.leadsToRelation_of_check hr hallowed, rfl⟩
  · rename_i hname
    -- a column without a name has no path and stands for the model
    have hpath := hself hname
    rw [Column.terminal?, hpath, Column.walk, Option.some.injEq] at htarget
    exact .inl ⟨⟨rfl, hpath, hname⟩, htarget.symm⟩

/-- Each target leads to rows, and its documents are read on their model. -/
theorem admitted_of_ofRelationJoin (hcolumns : ∀ c ∈ columns, c.ReadOn m)
    (hreaders : ∀ read ∈ readers, Gives (fun m c => c.Admitted m) read)
    (h : ofRelationJoin columns readers = .ok c) : c.Admitted m := by
  rcases targets_of_ofRelationJoin hreaders h with ⟨targets, rfl, htargets⟩
  refine .relationJoin (fun t ht => ?_) (fun t ht target htarget => ?_)
  · rcases htargets t ht with ⟨hmem, hallowed, n, hn, _⟩
    exact ⟨n, leadsToRows_of_check (hcolumns _ hmem) hn hallowed⟩
  · rcases htargets t ht with ⟨_, _, n, hn, hnested⟩
    -- the column leads to one model only
    have hsame : n = target := Option.some.inj (hn.symm.trans htarget.relationTarget?_eq)
    exact hsame ▸ hnested

/-- The relation is open and direct, and both documents are read on its target. -/
theorem admitted_of_ofDerivedJoin (hcolumns : ∀ c ∈ columns, c.ReadOn m)
    (hreaders : ∀ read ∈ readers, Gives (fun m c => c.Admitted m) read)
    (h : ofDerivedJoin columns readers = .ok c) : c.Admitted m := by
  rcases parts_of_ofDerivedJoin hreaders h with
    ⟨column, relation, subquery, conditions, rfl, hmem, hrelation, hallowed, hsubquery, hconditions⟩
  rcases hcolumns column hmem with ⟨rfl, _⟩
  -- the relation is one of the model itself, and it has no hops
  unfold directRelation at hrelation
  split at hrelation
  · rename_i hpath hfound
    cases hrelation
    exact .derivedJoin hpath rfl (Column.leadsToRelation_of_check hfound hallowed) hsubquery hconditions
  · cases hrelation

/-- Each target leads to a column or to a relation, on whose target its document is read. -/
theorem admitted_of_ofSelect (hcolumns : ∀ c ∈ columns, c.ReadOn m)
    (hreaders : ∀ read ∈ readers, Gives (fun m c => c.Admitted m) read)
    (h : ofSelect columns value readers = .ok c) : c.Admitted m := by
  rcases targets_of_ofSelect hreaders h with ⟨targets, rfl, htargets⟩
  refine .select (fun t ht => ?_) (fun t ht r hr => ?_)
  · rcases htargets t ht with ⟨hmem, hallowed, ⟨hcolumn, hnil⟩ | ⟨hother, r, hr, _⟩⟩
    · have hlead := Column.leadsToColumn_of_check hcolumn hallowed
      exact .inl ⟨(hcolumns _ hmem).1 ▸ hlead, hnil⟩
    · have hlead := Column.leadsToRelation_of_check hr hallowed
      exact .inr ⟨hother, r, (hcolumns _ hmem).1 ▸ hlead⟩
  · rcases htargets t ht with ⟨_, _, ⟨_, hnil⟩ | ⟨_, other, hother, hnested⟩⟩
    · -- a column is selected without a document
      rw [hnil]
      exact List.forall_mem_nil _
    · have hsame : other = r := Option.some.inj (hother.symm.trans hr.relation?_eq)
      exact hsame ▸ hnested

/-- An order names columns; a limit and an offset name nothing. -/
theorem admitted_of_ofFunction (h : ofFunction m columns value = .ok c) : c.Admitted m := by
  rcases parts_of_ofFunction h with ⟨entries, rfl, hentries⟩ | ⟨n, rfl⟩ | ⟨n, rfl⟩
  · refine .order fun e he => ?_
    rcases hentries e he with ⟨spec, hspec, hcheck⟩
    have hmodel : e.1.model = m := by rw [hspec]; rfl
    rw [Column.check] at hcheck
    split at hcheck
    · rename_i hcolumn
      exact hmodel ▸ Column.leadsToColumn_of_check hcolumn hcheck
    · cases hcheck
  · exact .limit n
  · exact .offset n

/-- An entry is admitted if the documents in its value are. -/
theorem entryGives_admitted : EntryGives (s := s) fun m c => c.Admitted m := by
  intro model text value readers c hreaders h
  rw [ofEntry_eq] at h
  split at h
  · cases h
  · rename_i key _
    split at h
    · cases h
    · have hcolumns : ∀ c ∈ key.columns.map (Column.ofText model), c.ReadOn model := by
        intro c hc
        rcases List.mem_map.1 hc with ⟨spec, _, rfl⟩
        exact Column.ofText_readOn model spec
      -- the rule decides how the value is read; only three rules read documents in it
      unfold ofRule at h
      split at h
      · exact admitted_of_ofComparison hcolumns h
      · exact admitted_of_ofPresence hcolumns h
      · exact admitted_of_ofMembership hcolumns h
      · exact admitted_of_ofRange hcolumns h
      · exact admitted_of_ofOverlap hcolumns h
      · exact admitted_of_ofRelationJoin hcolumns hreaders h
      · exact admitted_of_ofDerivedJoin hcolumns hreaders h
      · exact admitted_of_ofSelect hcolumns hreaders h
      · exact admitted_of_ofFunction h

/-- All conditions of a document are admitted on the model that it is read against. -/
theorem admitted_of_ofDocument {query : Json} {conditions : List (Condition s)}
    (h : ofDocument query m = .ok conditions) : ∀ c ∈ conditions, c.Admitted m :=
  ofDocument_gives entryGives_admitted query m conditions h

end Condition

/-! ## Queries -/

namespace Query

variable {model : String} {query : Json}

/-- A query is about a model of the schema. -/
theorem rootModel_eq_ok_iff {root : Model s} :
    rootModel s model = .ok root ↔ s.model? model = some root := by
  unfold rootModel
  cases s.model? model <;> simp

/-- Every condition of a parsed query is admitted on the root: its names lead to declared columns,
to relations or to the model itself, and no name of it is hidden where it is looked up. -/
theorem admitted_of_parse {conditions : List (Condition s)}
    (h : parse s model query = .ok conditions) :
    ∃ root, s.model? model = some root ∧ ∀ c ∈ conditions, c.Admitted root := by
  simp only [parse, bind_eq_ok_iff, rootModel_eq_ok_iff] at h
  rcases h with ⟨root, hroot, hconditions⟩
  exact ⟨root, hroot, Condition.admitted_of_ofDocument hconditions⟩

end Query

/-! ## A small schema -/

namespace Schema

/-- People with a password that queries must not reach, their friends, and their articles. -/
def people : Schema :=
  ⟨.ofList
    [("Person",
      { table := "people"
        columns := [⟨"id", ""⟩, ⟨"surname", ""⟩, ⟨"password", ""⟩]
        relations := .ofList
          [("articles", .oneToMany "Article" "person_id"),
            ("friends", .overTable "Person" "friendships" "person_id" "friend_id"),
            ("readings", .twoHops "friends" "articles")]
        hidden := ["password"] }),
    ("Article",
      { table := "articles"
        columns := [⟨"id", ""⟩, ⟨"title", ""⟩, ⟨"rating", ""⟩]
        relations := .ofList [("author", .manyToOne "Person" "person_id")] })]⟩

end Schema

namespace Query

/-- A query that reaches its columns in all ways: over a path, in a nested document, in a sub-query
and its conditions, and to order by. -/
def manyWays : Json :=
  .object
    [("readings.title|articles.title=", .array [.string "Loops", .string "Trees"]),
      ("articles=>", .object [("author.surname=", .string "Doe")]),
      ("articles()", .array [.object [("order:", .string "rating")],
        .object [("title=", .string "Roe")]]),
      ("order:", .string "surname")]

/-- A query with hops, lists, derived tables and selections is admitted as a whole. -/
theorem admitted_manyWays :
    ∃ conditions, parse Schema.people "Person" manyWays = .ok conditions ∧
      conditions.length = 4 ∧
      ∃ root, Schema.people.model? "Person" = some root ∧ ∀ c ∈ conditions, c.Admitted root := by
  have hlength : (parse Schema.people "Person" manyWays).toOption.map List.length = some 4 := by
    decide +kernel
  rcases exists_of_map_toOption hlength with ⟨conditions, hparse, hfour⟩
  exact ⟨conditions, hparse, hfour, admitted_of_parse hparse⟩

end Query

end DocQuery
