import DocQuery.Proofs.Nesting.Column

namespace DocQuery

/-! # Entries below a path

An entry that is about columns says the same of the columns behind a path as it says of the columns
at the end of the path. So entries with a path in front of their columns are read exactly if the
path is open and the entries are read at its end.

* `ofEntry_below_eq_ok_iff`: an entry with a path in front reads as its rule reads the longer
  columns.
* `ofEntry_joinEntry_iff`: a join over a path is read exactly if the path is open and its document
  reads at the end.
-/

variable {s : Schema}

/-- A condition of this form is a test of columns, or about the rows that columns are followed to. -/
def Form.isAboutColumns (form : Form) : Bool := form.isTest || form = .relationJoin

namespace Condition

variable {m n : Model s} {path : List String} {columns : List (Column s)} {value : Json}
  {readers : List (DocumentReader s)} {rule : Rule} {c : Condition s}

/-- The condition on the columns behind a path. -/
def under (m : Model s) (path : List String) : Condition s → Condition s
  | comparison rule template columns values =>
    comparison rule template (columns.map (Column.under m path)) values
  | presence rule template columns => presence rule template (columns.map (Column.under m path))
  | membership rule template columns values =>
    membership rule template (columns.map (Column.under m path)) values
  | range rule template columns low high =>
    range rule template (columns.map (Column.under m path)) low high
  | overlap rule template columns span =>
    overlap rule template (columns.map (Column.under m path)) span
  | relationJoin targets =>
    relationJoin (targets.map fun t => ⟨t.column.under m path, t.nested⟩)
  | other => other

/-- The columns as they are read of an entry that is about columns. -/
def Named (n : Model s) (columns : List (Column s)) : Prop :=
  ∀ c ∈ columns, c.ReadOn n ∧ ∃ name, c.name = some name

theorem model_of_mem_under : ∀ c ∈ columns.map (Column.under m path), c.model = m := by
  intro c hc
  rcases List.mem_map.1 hc with ⟨_, _, rfl⟩
  rfl

/-! ## Rules -/

theorem Makes.under {chronological : Bool} {count : Nat} {make : List (Column s) → Condition s}
    (h : Makes rule value chronological count make) (columns : List (Column s)) :
    (make columns).under m path = make (columns.map (Column.under m path)) := by
  cases h <;> rfl

theorem ofRule_test_under_iff (hopen : OpenPath m path n) (htest : rule.form.isTest = true)
    (hcolumns : Named n columns) :
    ofRule rule m (columns.map (Column.under m path)) value readers = .ok c ↔
      ∃ c', ofRule rule n columns value readers = .ok c' ∧ c = c'.under m path := by
  have hmodel : ∀ d ∈ columns, d.model = n := fun d hd => (hcolumns d hd).1.1
  have hreached : (∀ d ∈ columns.map (Column.under m path), d.LeadsToColumn m) ↔
      ∀ d ∈ columns, d.LeadsToColumn n := by
    rw [List.forall_mem_map]
    exact forall₂_congr fun d hd => Column.leadsToColumn_under_iff hopen (hmodel d hd)
  have hchronological : (columns.map (Column.under m path)).any Column.isChronological =
      columns.any Column.isChronological := by
    rw [List.any_map, Bool.eq_iff_iff, List.any_eq_true, List.any_eq_true]
    refine exists_congr fun d => and_congr_right fun hd => ?_
    rw [Function.comp_apply, Column.isChronological_under hopen (hmodel d hd)]
  -- the tests are made of the columns, their number and their types, which the path leaves alone
  rw [ofRule_test_iff htest model_of_mem_under, hreached, hchronological, List.length_map]
  simp only [ofRule_test_iff htest hmodel]
  constructor
  · rintro ⟨hall, make, hmake, rfl⟩
    exact ⟨make columns, ⟨hall, make, hmake, rfl⟩, (hmake.under columns).symm⟩
  · rintro ⟨_, ⟨hall, make, hmake, rfl⟩, rfl⟩
    exact ⟨hall, make, hmake, hmake.under columns⟩

theorem joinTarget_under_iff (hopen : OpenPath m path n) {column : Column s}
    (hcolumn : column.ReadOn n) (hname : ∃ name, column.name = some name)
    {t : Target s (List (List (Condition s)))} :
    joinTarget readers (column.under m path) = .ok t ↔
      ∃ t', joinTarget readers column = .ok t' ∧ t = ⟨t'.column.under m path, t'.nested⟩ := by
  rcases hname with ⟨name, hname⟩
  simp only [joinTarget_eq_ok_iff (Column.under_readOn m path hname), joinTarget_eq_ok_iff hcolumn,
    Column.leadsToRows_under_iff hopen hcolumn.1 hname]
  -- the documents are read on the model that both columns lead to
  constructor
  · rcases t with ⟨_, documents⟩
    rintro ⟨rfl, k, hrows, hdocuments⟩
    exact ⟨⟨column, documents⟩, ⟨rfl, k, hrows, hdocuments⟩, rfl⟩
  · rintro ⟨⟨_, documents⟩, ⟨rfl, k, hrows, hdocuments⟩, rfl⟩
    exact ⟨rfl, k, hrows, hdocuments⟩

/-- A rule makes of columns behind a path what it makes of the columns, behind the path. -/
theorem ofRule_under_iff (hopen : OpenPath m path n) (hform : rule.form.isAboutColumns = true)
    (hcolumns : Named n columns) :
    ofRule rule m (columns.map (Column.under m path)) value readers = .ok c ↔
      ∃ c', ofRule rule n columns value readers = .ok c' ∧ c = c'.under m path := by
  rw [Form.isAboutColumns, Bool.or_eq_true, decide_eq_true_eq] at hform
  -- a row about columns tests them or joins them
  rcases hform with htest | hjoin
  · exact ofRule_test_under_iff hopen htest hcolumns
  · unfold ofRule
    rw [hjoin]
    simp only [ofRelationJoin_eq_ok_iff, List.forall₂_map_left_iff]
    have htargets : ∀ column ∈ columns, ∀ t, joinTarget readers (column.under m path) = .ok t ↔
        ∃ t', joinTarget readers column = .ok t' ∧ t = ⟨t'.column.under m path, t'.nested⟩ :=
      fun column hcolumn t =>
        joinTarget_under_iff hopen (hcolumns column hcolumn).1 (hcolumns column hcolumn).2
    simp only [forall₂_congr_mem htargets, forall₂_exists_map_iff]
    constructor
    · rintro ⟨_, ⟨targets, htargets, rfl⟩, rfl⟩
      exact ⟨_, ⟨targets, htargets, rfl⟩, rfl⟩
    · rintro ⟨_, ⟨targets, htargets, rfl⟩, rfl⟩
      exact ⟨_, ⟨targets, htargets, rfl⟩, rfl⟩

/-- Where a rule makes something of columns behind a path, the path is open. -/
theorem openPath_of_ofRule (hform : rule.form.isAboutColumns = true) (hne : columns ≠ [])
    (hcolumns : ∀ c ∈ columns, ∃ name, c.name = some name)
    (h : ofRule rule m (columns.map (Column.under m path)) value readers = .ok c) :
    ∃ n, OpenPath m path n := by
  -- any of the columns opens the path
  rcases List.exists_cons_of_ne_nil hne with ⟨column, rest, rfl⟩
  rcases hcolumns column List.mem_cons_self with ⟨name, hname⟩
  rw [Form.isAboutColumns, Bool.or_eq_true, decide_eq_true_eq] at hform
  rcases hform with htest | hjoin
  · have hreached := ((ofRule_test_iff htest model_of_mem_under).1 h).1
    exact (hreached _ List.mem_cons_self).openPath
  · unfold ofRule at h
    rw [hjoin] at h
    simp only [ofRelationJoin_eq_ok_iff, List.map_cons, List.forall₂_cons_left_iff] at h
    rcases h with ⟨_, ⟨t, _, ht, _, _⟩, _⟩
    rcases (joinTarget_eq_ok_iff (Column.under_readOn m path hname)).1 ht with ⟨_, k, hrows, _⟩
    exact hrows.openPath hname

/-! ## Entries -/

/-- The entry is about columns, and none of them is `self` alone. -/
def isAboutColumns (text : String) (value : Json) : Bool :=
  match Key.parse text with
  | none => false
  | some key =>
    match Rule.find? key.operator (key.columns.head?.getD "") value with
    | none => false
    | some rule =>
      rule.form.isAboutColumns && key.columns.all fun column => !(Column.segmentsOf column).isEmpty

theorem isAboutColumns_iff {text : String} : isAboutColumns text value = true ↔
    ∃ key rule, Key.parse text = some key ∧
      Rule.find? key.operator (key.columns.head?.getD "") value = some rule ∧
      rule.form.isAboutColumns = true ∧ ∀ column ∈ key.columns, Column.segmentsOf column ≠ [] := by
  unfold isAboutColumns
  cases Key.parse text with
  | none => simp
  | some key =>
    simp only [Option.some.injEq, exists_and_left, exists_eq_left']
    cases Rule.find? key.operator (key.columns.head?.getD "") value with
    | none => simp
    | some rule => simp

theorem form_ne_function (h : rule.form.isAboutColumns = true) : rule.form ≠ .function := by
  intro hfunction
  rw [hfunction] at h
  cases h

variable {relations text : String}

/-- The columns of an entry below a path are those behind the path. -/
theorem ofText_under {key : Key} (hself : ∀ column ∈ key.columns, Column.segmentsOf column ≠ [])
    (m n : Model s) (relations : String) :
    (key.under relations).columns.map (Column.ofText m) =
      (key.columns.map (Column.ofText n)).map
        (Column.under m (Column.segmentsOf relations)) := by
  rw [Key.under, List.map_map, List.map_map]
  exact List.map_congr_left fun column hcolumn =>
    Column.ofText_below (hself column hcolumn) m n relations

theorem named_ofText {key : Key} (hself : ∀ column ∈ key.columns, Column.segmentsOf column ≠ [])
    (n : Model s) : Named n (key.columns.map (Column.ofText n)) := by
  intro c hc
  rcases List.mem_map.1 hc with ⟨column, hcolumn, rfl⟩
  exact ⟨Column.ofText_readOn n column, Column.exists_name (hself column hcolumn) n⟩

/-- An entry below a path has the rule that it has without the path. -/
theorem ofEntry_below_eq_ok_iff (hpath : Key.IsPath relations) {key : Key}
    (hkey : Key.parse text = some key)
    (hrule : Rule.find? key.operator (key.columns.head?.getD "") value = some rule)
    (hform : rule.form ≠ .function) :
    ofEntry m (Key.prefixed relations text) value readers = .ok c ↔
      ofRule rule m ((key.under relations).columns.map (Column.ofText m)) value readers = .ok c := by
  have hfind := Rule.find?_of_name ((key.under relations).columns.head?.getD "") hrule hform
  -- a rule that is no function is found whatever the columns are
  rw [ofEntry_eq_ok_iff]
  constructor
  · rintro ⟨key', rule', hkey', hrule', h⟩
    rw [Key.parse_prefixed hpath hkey] at hkey'
    cases hkey'
    have hsame : rule = rule' := Option.some.inj (hfind.symm.trans hrule')
    exact hsame ▸ h
  · intro h
    exact ⟨_, rule, Key.parse_prefixed hpath hkey, hfind, h⟩

/-- Below an open path an entry is read as it is at the end of the path. -/
theorem ofEntry_below_iff (hpath : Key.IsPath relations)
    (hopen : OpenPath m (Column.segmentsOf relations) n) (habout : isAboutColumns text value = true) :
    ofEntry m (Key.prefixed relations text) value readers = .ok c ↔
      ∃ c', ofEntry n text value readers = .ok c' ∧
        c = c'.under m (Column.segmentsOf relations) := by
  rcases isAboutColumns_iff.1 habout with ⟨key, rule, hkey, hrule, hform, hself⟩
  have hentry : ∀ c', ofEntry n text value readers = .ok c' ↔
      ofRule rule n (key.columns.map (Column.ofText n)) value readers = .ok c' := by
    intro c'
    simp only [ofEntry_eq, hkey, hrule]
  simp only [ofEntry_below_eq_ok_iff hpath hkey hrule (form_ne_function hform), hentry,
    ofText_under hself m n relations, ofRule_under_iff hopen hform (named_ofText hself n)]

/-- An entry that can be read below a path opens the path. -/
theorem openPath_of_ofEntry_below (hpath : Key.IsPath relations)
    (habout : isAboutColumns text value = true)
    (h : ofEntry m (Key.prefixed relations text) value readers = .ok c) :
    ∃ n, OpenPath m (Column.segmentsOf relations) n := by
  rcases isAboutColumns_iff.1 habout with ⟨key, rule, hkey, hrule, hform, hself⟩
  rw [ofEntry_below_eq_ok_iff hpath hkey hrule (form_ne_function hform),
    ofText_under hself m m relations] at h
  have hne : key.columns.map (Column.ofText m) ≠ [] := by
    intro hnil
    exact (Key.columns_of_parse hkey).1 (List.map_eq_nil_iff.1 hnil)
  exact openPath_of_ofRule hform hne (fun d hd => (named_ofText hself m d hd).2) h

/-! ## Documents -/

/-- The entries with the path in front of their columns. -/
def entriesBelow (relations : String) (fields : List (String × Json)) : List (String × Json) :=
  fields.map fun field => (Key.prefixed relations field.1, field.2)

/-- The entry that asks for rows over relations to meet a document. -/
def joinEntry (relations : String) (fields : List (String × Json)) : String × Json :=
  (relations ++ "=>", .object fields)

variable {fields : List (String × Json)} {conditions : List (Condition s)}

/-- Entries below an open path are read as they are at the end of the path. -/
theorem ofFields_entriesBelow_iff (hpath : Key.IsPath relations)
    (hopen : OpenPath m (Column.segmentsOf relations) n)
    (habout : ∀ field ∈ fields, isAboutColumns field.1 field.2 = true) :
    ofFields (entriesBelow relations fields) m = .ok conditions ↔
      ∃ inner, ofFields fields n = .ok inner ∧
        conditions = inner.map (under m (Column.segmentsOf relations)) := by
  simp only [ofFields_eq_ok_iff, entriesBelow, List.forall₂_map_left_iff]
  rw [← forall₂_exists_map_iff]
  exact forall₂_congr_mem fun field hfield c => ofEntry_below_iff hpath hopen (habout field hfield)

theorem openPath_of_ofFields_entriesBelow (hpath : Key.IsPath relations) (hne : fields ≠ [])
    (habout : ∀ field ∈ fields, isAboutColumns field.1 field.2 = true)
    (h : ofFields (entriesBelow relations fields) m = .ok conditions) :
    ∃ n, OpenPath m (Column.segmentsOf relations) n := by
  rcases List.exists_cons_of_ne_nil hne with ⟨field, rest, rfl⟩
  simp only [ofFields_eq_ok_iff, entriesBelow, List.map_cons, List.forall₂_cons_left_iff] at h
  rcases h with ⟨c, _, hc, _⟩
  exact openPath_of_ofEntry_below hpath (habout field List.mem_cons_self) hc

/-- A join is read exactly if its path is open and its document can be read at the end. -/
theorem ofEntry_joinEntry_iff (hpath : Key.IsPath relations) :
    ofEntry m (joinEntry relations fields).1 (joinEntry relations fields).2
        (readersOf (joinEntry relations fields).2) = .ok c ↔
      ∃ n document, OpenPath m (Column.segmentsOf relations) n ∧ ofFields fields n = .ok document ∧
        c = .relationJoin [⟨Column.ofSegments m (Column.segmentsOf relations), [document]⟩] := by
  have hentry : ofEntry m (relations ++ "=>") (.object fields) (readersOf (.object fields)) =
      ofRelationJoin [Column.ofSegments m (Column.segmentsOf relations)]
        [nested (.object fields)] := by
    have hkey : Key.parse (relations ++ "=>") = some ⟨none, [relations], "=>"⟩ := hpath
    simp only [ofEntry_eq, hkey]
    rfl
  show ofEntry m (relations ++ "=>") (.object fields) (readersOf (.object fields)) = .ok c ↔ _
  have hdocument : ∀ (n : Model s) document, nested (.object fields) n = .ok document ↔
      ofFields fields n = .ok document := by
    intro n document
    rw [nested_eq, mapError_eq_ok_iff]
    rfl
  -- the one target has the one document
  have htarget : ∀ t, joinTarget [nested (.object fields)]
      (Column.ofSegments m (Column.segmentsOf relations)) = .ok t ↔
      ∃ n document, OpenPath m (Column.segmentsOf relations) n ∧ ofFields fields n = .ok document ∧
        t = ⟨Column.ofSegments m (Column.segmentsOf relations), [document]⟩ := by
    rintro ⟨column, documents⟩
    simp only [joinTarget_eq_ok_iff (Column.ofSegments_readOn m _), Column.leadsToRows_ofSegments_iff,
      List.forall₂_cons_left_iff, List.forall₂_nil_left_iff, hdocument]
    constructor
    · rintro ⟨rfl, n, hopen, document, _, hread, rfl, rfl⟩
      exact ⟨n, document, hopen, hread, rfl⟩
    · rintro ⟨n, document, hopen, hread, heq⟩
      cases heq
      exact ⟨rfl, n, hopen, document, [], hread, rfl, rfl⟩
  rw [hentry, ofRelationJoin_eq_ok_iff]
  simp only [List.forall₂_cons_left_iff, List.forall₂_nil_left_iff, htarget]
  constructor
  · rintro ⟨_, ⟨_, _, ⟨n, document, hopen, hread, rfl⟩, rfl, rfl⟩, rfl⟩
    exact ⟨n, document, hopen, hread, rfl⟩
  · rintro ⟨n, document, hopen, hread, rfl⟩
    exact ⟨_, ⟨_, [], ⟨n, document, hopen, hread, rfl⟩, rfl, rfl⟩, rfl⟩

end Condition

end DocQuery
