import DocQuery.Proofs.Document.Rules
import DocQuery.Proofs.Failure.Kinds

namespace DocQuery

/-! # Dispatch

No two rows of the grammar accept the same operator and value, so it does not matter in which order
they are tried. What becomes of an entry is settled by its key and its row: without columns the key
is malformed, without a row the entry is not recognized, and otherwise the entry is a condition of
the row's form or fails on its columns, its value or its nested documents.

* `countP_accepts_le_one`: at most one row accepts an operator and a value.
* `ofFieldsIn_congr`: a document is read alike whatever the order of the rows.
* `outcome_ofEntry`: an entry is malformed, not recognized, made by its row or refused by it.
* `dispatch_classified`: the grammar as a whole: its rows do not overlap, their order does not
  matter and both errors have their exact conditions.
-/

variable {s : Schema}

/-! ## Simple shapes -/

/-- The value's simple shape: null, true, false, a number, a text, an array or an object. -/
def Json.simpleShape : Json → Shape
  | .null => .null
  | .bool b => if b then .true else .false
  | .number _ => .number
  | .string _ => .string
  | .array _ => .array
  | .object _ => .object

namespace Shape

/-- All simple shapes. -/
def simple : List Shape := [null, true, false, number, string, array, object]

/-- The simple shapes that values of the shape may have. -/
def simples : Shape → List Shape
  | bool => [true, false]
  | count => [number]
  | pair | objectList | timeSpan | subQuery => [array]
  | shape => [shape]

theorem simpleShape_mem_simple (value : Json) : value.simpleShape ∈ simple := by
  cases value with
  | bool b => cases b <;> decide
  | _ => simp only [Json.simpleShape]; decide

/-- A value belongs to its simple shape. -/
theorem accepts_simpleShape (value : Json) : value.simpleShape.accepts value = .true := by
  cases value with
  | bool b => cases b <;> rfl
  | _ => rfl

/-- A value of a shape has one of the simple shapes of the shape. -/
theorem simpleShape_mem_simples {shape : Shape} {value : Json} (h : shape.accepts value = .true) :
    value.simpleShape ∈ shape.simples := by
  cases shape <;> cases value <;> simp_all [accepts, Json.simpleShape, simples]

end Shape

/-! ## Rows -/

namespace Rule

/-- The rules accept no value together. -/
def Apart (rule other : Rule) : Prop :=
  rule.operator = other.operator → ∀ shape ∈ rule.shapes, ∀ shape' ∈ other.shapes,
    ∀ simple ∈ shape.simples, simple ∉ shape'.simples

instance (rule other : Rule) : Decidable (Apart rule other) :=
  inferInstanceAs (Decidable (_ → _))

/-- No two rows of the grammar overlap; the table is small enough to look. -/
theorem apart_table : table.Pairwise Apart := by decide +kernel

/-- Each simple shape is accepted by a row without an operator. -/
theorem exists_row_of_simple : ∀ shape ∈ Shape.simple, ∃ rule ∈ table, rule.operator = "" ∧
    shape ∈ rule.shapes := by
  decide +kernel

/-- The rule is a row of the table that accepts the operator and the value. -/
def IsRow (rule : Rule) (operator : String) (value : Json) : Prop :=
  rule ∈ table ∧ rule.accepts operator value = true

/-- A row accepts an operator and a value if the operator is its own and a shape of it takes the
value. -/
theorem accepts_iff {rule : Rule} {operator : String} {value : Json} :
    rule.accepts operator value = true ↔
      rule.operator = operator ∧ ∃ shape ∈ rule.shapes, shape.accepts value = true := by
  rw [accepts, Bool.and_eq_true, beq_iff_eq, List.any_eq_true]

/-- What one of two rows apart accepts the other does not. -/
theorem Apart.accepts_eq_false {rule other : Rule} (h : rule.Apart other) {operator : String}
    {value : Json} (haccepts : rule.accepts operator value = true) :
    other.accepts operator value = false := by
  rw [Bool.eq_false_iff]
  intro hother
  rcases accepts_iff.1 haccepts with ⟨hoperator, shape, hshape, hvalue⟩
  rcases accepts_iff.1 hother with ⟨hoperator', shape', hshape', hvalue'⟩
  exact h (hoperator.trans hoperator'.symm) shape hshape shape' hshape' _
    (Shape.simpleShape_mem_simples hvalue) (Shape.simpleShape_mem_simples hvalue')

/-- At most one row accepts an operator and a value. -/
theorem countP_accepts_le_one (operator : String) (value : Json) :
    table.countP (·.accepts operator value) ≤ 1 := by
  have hrows := apart_table
  generalize table = rules at hrows
  induction hrows with
  | nil => exact Nat.zero_le 1
  | @cons rule rules happart _ ih =>
    by_cases haccepts : rule.accepts operator value = true
    · -- the rows behind it are apart from it
      have hnone : rules.countP (·.accepts operator value) = 0 :=
        List.countP_eq_zero.2 fun other hother => by
          rw [(happart other hother).accepts_eq_false haccepts]
          exact Bool.false_ne_true
      rw [List.countP_cons, if_pos haccepts, hnone]
    · rw [List.countP_cons, if_neg haccepts]
      exact ih

/-- The row of an operator and a value is unique. -/
theorem IsRow.unique {rule other : Rule} {operator : String} {value : Json}
    (h : rule.IsRow operator value) (h' : other.IsRow operator value) : rule = other := by
  have hcount := countP_accepts_le_one operator value
  rw [List.countP_eq_length_filter] at hcount
  have hmem : rule ∈ table.filter (·.accepts operator value) := List.mem_filter.2 h
  have hmem' : other ∈ table.filter (·.accepts operator value) := List.mem_filter.2 h'
  generalize table.filter (·.accepts operator value) = rows at hcount hmem hmem'
  match rows with
  | [] => cases hmem
  | [row] => rw [List.mem_singleton.1 hmem, List.mem_singleton.1 hmem']
  | _ :: _ :: _ => simp at hcount

/-- Without an operator every value has a row. -/
theorem exists_isRow_empty (value : Json) : ∃ rule : Rule, rule.IsRow "" value := by
  rcases exists_row_of_simple _ (Shape.simpleShape_mem_simple value) with
    ⟨rule, htable, hoperator, hshape⟩
  exact ⟨rule, htable, accepts_iff.2 ⟨hoperator, _, hshape, Shape.accepts_simpleShape value⟩⟩

/-- A key without an operator has one row, whatever the value. -/
theorem countP_accepts_empty (value : Json) : table.countP (·.accepts "" value) = 1 := by
  rcases exists_isRow_empty value with ⟨rule, htable, haccepts⟩
  have hpos : 0 < table.countP (·.accepts "" value) := List.countP_pos_iff.2 ⟨rule, htable, haccepts⟩
  have hle := countP_accepts_le_one "" value
  omega

/-- The row is found, but it is that of the functions, and no function of the name takes the value. -/
def CallsNothing (rule : Rule) (name : String) (value : Json) : Prop :=
  rule.form = .function ∧ FunctionName.find? name value = none

variable {operator name : String} {value : Json} {rule : Rule}

/-- The rule that is found is the row, unless it calls nothing. -/
theorem find?_eq_some_iff : find? operator name value = some rule ↔
    rule.IsRow operator value ∧ ¬rule.CallsNothing name value := by
  have hfound : ∀ {rule}, find? operator name value = some rule →
      rule.IsRow operator value ∧ ¬rule.CallsNothing name value := by
    intro rule h
    unfold find? findIn? at h
    have hrule := List.find?_some h
    rw [Bool.and_eq_true] at hrule
    refine ⟨⟨List.mem_of_find?_eq_some h, hrule.1⟩, fun ⟨hform, hnone⟩ => ?_⟩
    simp [hform, hnone] at hrule
  refine ⟨hfound, fun ⟨hrow, hcalls⟩ => ?_⟩
  cases h : find? operator name value with
  | some other => rw [(hfound h).1.unique hrow]
  | none =>
    unfold find? findIn? at h
    have hrefused := List.find?_eq_none.1 h rule hrow.1
    rw [hrow.2, Bool.true_and, Bool.or_eq_true, decide_eq_true_eq, not_or, not_not] at hrefused
    exact absurd ⟨hrefused.1, by simpa using hrefused.2⟩ hcalls

theorem find?_eq_none_iff : find? operator name value = none ↔
    (∀ rule ∈ table, rule.accepts operator value = false) ∨
      ∃ rule : Rule, rule.IsRow operator value ∧ rule.CallsNothing name value := by
  constructor
  · intro h
    by_cases hrow : ∃ rule : Rule, rule.IsRow operator value
    · rcases hrow with ⟨rule, hrow⟩
      refine .inr ⟨rule, hrow, ?_⟩
      by_contra hcalls
      rw [find?_eq_some_iff.2 ⟨hrow, hcalls⟩] at h
      cases h
    · exact .inl fun rule htable => Bool.eq_false_iff.2 fun haccepts => hrow ⟨rule, htable, haccepts⟩
  · intro h
    rw [Option.eq_none_iff_forall_ne_some]
    intro rule hfound
    rcases find?_eq_some_iff.1 hfound with ⟨hrow, hcalls⟩
    rcases h with hnone | ⟨other, hother, hnothing⟩
    · exact absurd hrow.2 (Bool.eq_false_iff.1 (hnone rule hrow.1))
    · exact hcalls (hrow.unique hother ▸ hnothing)

/-- The order in which the rows are tried does not matter. -/
theorem findIn?_eq_of_perm {rules : List Rule} (h : rules.Perm table) :
    findIn? rules = findIn? table := by
  funext operator name value
  refine List.find?_eq_find?_of_perm h fun rule hrule other hother => ?_
  rcases hrule with ⟨hmem, hrule⟩
  rcases hother with ⟨hmem', hother⟩
  rw [Bool.and_eq_true] at hrule hother
  exact IsRow.unique ⟨h.mem_iff.1 hmem, hrule.1⟩ ⟨h.mem_iff.1 hmem', hother.1⟩

end Rule

namespace FunctionName

/-- The name of a function, read as a column, is written as the function is. -/
theorem text_ofText (f : FunctionName) (m : Model s) : (Column.ofText m f.text).text = f.text := by
  cases f <;> rfl

/-- A function that is called by the first of the columns as written is called by the column read
from it too. -/
theorem find?_head_ofText {columns : List String} {value : Json} {f : FunctionName}
    (h : find? (columns.head?.getD "") value = some f) (m : Model s) :
    find? (((columns.map (Column.ofText m)).head?.map Column.text).getD "") value = some f := by
  cases columns with
  | nil => exact h
  | cons name columns =>
    have hf := List.find?_some h
    rw [Bool.and_eq_true, beq_iff_eq] at hf
    have hname : f.text = name := hf.1
    show find? (Column.ofText m name).text value = some f
    rw [← hname, text_ofText, hname]
    exact h

/-- Not the other way round: `self` in front of a name is dropped when the column is read. -/
example (m : Model s) : find? "self.limit" (.number (.int 3)) = none ∧
    find? (Column.ofText m "self.limit").text (.number (.int 3)) = some .limit := by
  exact ⟨by decide, rfl⟩

end FunctionName

/-! ## Reading with the rules in another order -/

namespace Condition

section ByRules

variable {rules rules' : List Rule}

/-- An entry is read alike by rules that are found alike. -/
theorem ofEntryIn_congr (h : Rule.findIn? rules = Rule.findIn? rules') :
    ofEntryIn (s := s) rules = ofEntryIn rules' := by
  funext model text value readers
  rw [ofEntryIn, ofEntryIn, h]

/-- The documents in a value are read alike if the objects among them are. -/
theorem readersIn_congr {value : Json} (hinner : ∀ inner, .object inner ∈ items value →
      ofFieldsIn (s := s) rules inner = ofFieldsIn rules' inner) :
    readersIn (s := s) rules value = readersIn rules' value := by
  rw [readersIn_eq_map, readersIn_eq_map]
  refine List.map_congr_left fun document hdocument => ?_
  cases document with
  | object inner => rw [nestedIn, nestedIn, hinner inner hdocument]
  | _ => rfl

/-- A document is read alike by rules that are found alike. -/
theorem ofFieldsIn_congr (h : Rule.findIn? rules = Rule.findIn? rules')
    (fields : List (String × Json)) : ofFieldsIn (s := s) rules fields = ofFieldsIn rules' fields := by
  induction fields using fields_induction with
  | nil => rfl
  | cons key value fields hinner ih =>
    rw [ofFieldsIn, ofFieldsIn, ofEntryIn_congr h, readersIn_congr hinner, ih]

end ByRules

/-! ## Conditions of a form -/

/-- The condition is of the rule's form, with its name and template, and about the columns. For the
row of the functions it is that of the function `called`. -/
inductive IsOf (rule : Rule) (columns : List (Column s)) (called : Option FunctionName) :
    Condition s → Prop where
  | comparison {template : String} {temporal : Bool} (form : rule.form = .comparison template temporal)
      (values : List Operand) : IsOf rule columns called (.comparison rule.name template columns values)
  | presence {template : String} (form : rule.form = .presence template) :
      IsOf rule columns called (.presence rule.name template columns)
  | membership {template : String} (form : rule.form = .membership template) (values : Operand) :
      IsOf rule columns called (.membership rule.name template columns values)
  | range {template : String} (form : rule.form = .range template) (low high : Operand) :
      IsOf rule columns called (.range rule.name template columns low high)
  | overlap {template : String} (form : rule.form = .overlap template) (span : TimeSpan) :
      IsOf rule columns called (.overlap rule.name template columns span)
  | relationJoin {targets : List (Target s (List (List (Condition s))))}
      (form : rule.form = .relationJoin) (along : targets.map Target.column = columns) :
      IsOf rule columns called (.relationJoin targets)
  | derivedJoin {column : Column s} {relation : Relation s} (subquery conditions : List (Condition s))
      (form : rule.form = .derivedJoin) (along : columns = [column]) :
      IsOf rule columns called (.derivedJoin column relation subquery conditions)
  | select {targets : List (Target s (List (Condition s)))} (form : rule.form = .select)
      (along : targets.map Target.column = columns) : IsOf rule columns called (.select targets)
  | order (form : rule.form = .function) (calls : called = some .order)
      (entries : List (Column s × Direction)) : IsOf rule columns called (.order entries)
  | limit (form : rule.form = .function) (calls : called = some .limit) (n : Nat) :
      IsOf rule columns called (.limit n)
  | offset (form : rule.form = .function) (calls : called = some .offset) (n : Nat) :
      IsOf rule columns called (.offset n)

section Forms

variable {rule : Rule} {m : Model s} {columns : List (Column s)} {value : Json}
  {readers : List (DocumentReader s)} {c : Condition s} {called : Option FunctionName}

/-- A condition that a test makes is of the form of its row. -/
theorem Makes.isOf {chronological : Bool} {count : Nat} {make : List (Column s) → Condition s}
    (h : Makes rule value chronological count make) : (make columns).IsOf rule columns called := by
  cases h with
  | comparison form => exact .comparison form _
  | presence form => exact .presence form
  | membership form => exact .membership form _
  | range form => exact .range form _ _
  | overlap form => exact .overlap form _

theorem map_column_of_forall₂ {δ : Type} {read : Column s → Except Error (Target s δ)}
    {targets : List (Target s δ)} (hread : ∀ column t, read column = .ok t → t.column = column)
    (h : List.Forall₂ (fun column t => read column = .ok t) columns targets) :
    targets.map Target.column = columns := by
  induction h with
  | nil => rfl
  | cons hfirst _ ih => rw [List.map_cons, hread _ _ hfirst, ih]

theorem column_of_joinTarget {column : Column s} {t : Target s (List (List (Condition s)))}
    (h : joinTarget readers column = .ok t) : t.column = column := by
  unfold joinTarget at h
  split at h
  · cases h
  · simp only [bind_eq_ok_iff, pure_eq_ok_iff] at h
    rcases h with ⟨_, _, _, _, rfl⟩
    rfl

theorem column_of_selectTarget {document : Option (DocumentReader s)} {column : Column s}
    {t : Target s (List (Condition s))} (h : selectTarget document column = .ok t) :
    t.column = column := by
  unfold selectTarget at h
  split at h
  · split at h
    · cases h
    · simp only [bind_eq_ok_iff, pure_eq_ok_iff] at h
      rcases h with ⟨_, _, rfl⟩
      rfl
  · split at h
    · cases h
    · simp only [bind_eq_ok_iff, pure_eq_ok_iff] at h
      rcases h with ⟨_, _, _, _, rfl⟩
      rfl

/-- A function makes a condition of its own. -/
theorem isOf_of_ofFunction (hform : rule.form = .function)
    (hcalled : FunctionName.find? ((columns.head?.map Column.text).getD "") value = called)
    (h : ofFunction m columns value = .ok c) : c.IsOf rule columns called := by
  unfold ofFunction at h
  dsimp only at h
  rw [hcalled] at h
  split at h
  · simp only [bind_eq_ok_iff, pure_eq_ok_iff] at h
    rcases h with ⟨_, _, entries, _, rfl⟩
    exact .order hform rfl entries
  · cases h
    exact .limit hform rfl _
  · cases h
    exact .offset hform rfl _
  · cases h

/-- What a rule makes is of its form. -/
theorem isOf_of_ofRule (hmodel : ∀ c ∈ columns, c.model = m) (hcalled : rule.form = .function →
      FunctionName.find? ((columns.head?.map Column.text).getD "") value = called)
    (h : ofRule rule m columns value readers = .ok c) : c.IsOf rule columns called := by
  -- The rows that test columns make conditions by one description; every other row has its reader,
  -- which is taken apart as far as the columns go.
  by_cases htest : rule.form.isTest = true
  · rcases ((ofRule_test_iff htest hmodel).1 h).2 with ⟨make, hmake, rfl⟩
    exact hmake.isOf
  · unfold ofRule at h
    cases hform : rule.form with
    -- one target for each column, in order
    | relationJoin =>
      rw [hform] at h
      rcases ofRelationJoin_eq_ok_iff.1 h with ⟨targets, htargets, rfl⟩
      exact .relationJoin hform (map_column_of_forall₂ (fun _ _ => column_of_joinTarget) htargets)
    -- a derived table has exactly one column
    | derivedJoin =>
      rw [hform] at h
      dsimp only [ofDerivedJoin] at h
      split at h
      · simp only [bind_eq_ok_iff, pure_eq_ok_iff] at h
        rcases h with ⟨_, _, _, _, subquery, _, conditions, _, rfl⟩
        exact .derivedJoin subquery conditions hform rfl
      · cases h
    -- one target for each column again
    | select =>
      rw [hform] at h
      simp only [ofSelect, bind_eq_ok_iff, pure_eq_ok_iff, mapM_eq_ok_iff] at h
      rcases h with ⟨targets, htargets, rfl⟩
      exact .select hform (map_column_of_forall₂ (fun _ _ => column_of_selectTarget) htargets)
    -- the function that is called is the one that the name and the value find
    | function =>
      rw [hform] at h
      exact isOf_of_ofFunction hform (hcalled hform) h
    -- the tests have been dealt with
    | _ =>
      rw [hform] at htest
      exact absurd rfl htest

/-- What a rule refuses is refused for its columns, its value or its nested documents. -/
theorem failsOnly_ofRule
    (hfunction : rule.form = .function →
      FunctionName.find? ((columns.head?.map Column.text).getD "") value ≠ none) :
    FailsOnly Error.contentKinds (ofRule rule m columns value (readersOf value)) := by
  have hown : Error.ownKinds ⊆ Error.contentKinds := List.subset_cons_self _ _
  have hreaders : ∀ read ∈ readersOf (s := s) value, ∀ n, FailsOnly Error.contentKinds (read n) :=
    fun read hread => failsOnly_of_mem_readersOf hread
  -- row by row: the tests fail on columns and values, the rows with documents also inside them
  unfold ofRule
  split
  · exact failsOnly_ofComparison.mono hown
  · exact failsOnly_ofPresence.mono hown
  · exact failsOnly_ofMembership.mono hown
  · exact failsOnly_ofRange.mono hown
  · exact failsOnly_ofOverlap.mono hown
  · exact (failsOnly_mapM fun column _ => failsOnly_joinTarget hown hreaders column).bind fun _ =>
      failsOnly_ok _
  · exact failsOnly_ofDerivedJoin hown hreaders
  · exact failsOnly_ofSelect hown hreaders
  · rename_i hform
    exact (failsOnly_ofFunction m (hfunction hform)).mono hown

end Forms

/-! ## Entries -/

section Entries

variable {m : Model s} {text : String} {value : Json}

/-- What becomes of an entry. -/
inductive Outcome (m : Model s) (text : String) (value : Json) : Except Error (Condition s) → Prop where
  | malformed (unsplit : Key.parse text = none) :
      Outcome m text value (.error (.malformedKey m.name text value))
  | unrecognized {key : Key} (split : Key.parse text = some key)
      (unruled : Rule.find? key.operator (key.columns.head?.getD "") value = none) :
      Outcome m text value (.error (.unrecognizedRule m.name text value))
  | made {key : Key} {rule : Rule} {c : Condition s} (split : Key.parse text = some key)
      (ruled : Rule.find? key.operator (key.columns.head?.getD "") value = some rule)
      (form : c.IsOf rule (key.columns.map (Column.ofText m))
        (FunctionName.find? (key.columns.head?.getD "") value)) : Outcome m text value (.ok c)
  | refused {key : Key} {rule : Rule} {e : Error} (split : Key.parse text = some key)
      (ruled : Rule.find? key.operator (key.columns.head?.getD "") value = some rule)
      (kind : e.kind ∈ Error.contentKinds) : Outcome m text value (.error e)

/-- An entry has one of these outcomes. -/
theorem outcome_ofEntry (m : Model s) (text : String) (value : Json) :
    Outcome m text value (ofEntry m text value (readersOf value)) := by
  rw [ofEntry_eq]
  cases hkey : Key.parse text with
  | none => exact .malformed hkey
  | some key =>
    dsimp only
    cases hrule : Rule.find? key.operator (key.columns.head?.getD "") value with
    | none => exact .unrecognized hkey hrule
    | some rule =>
      dsimp only
      have hcalls := (Rule.find?_eq_some_iff.1 hrule).2
      -- the function is found by the column that was written, hence by the column that was read
      have hcalled : rule.form = .function →
          FunctionName.find? (((key.columns.map (Column.ofText m)).head?.map Column.text).getD "")
            value = FunctionName.find? (key.columns.head?.getD "") value := by
        intro hform
        cases hfound : FunctionName.find? (key.columns.head?.getD "") value with
        | none => exact absurd ⟨hform, hfound⟩ hcalls
        | some f => exact FunctionName.find?_head_ofText hfound m
      have hmodel : ∀ c ∈ key.columns.map (Column.ofText m), c.model = m := by
        intro c hc
        rcases List.mem_map.1 hc with ⟨_, _, rfl⟩
        rfl
      cases hmade : ofRule rule m (key.columns.map (Column.ofText m)) value (readersOf value) with
      | ok c => exact .made hkey hrule (isOf_of_ofRule hmodel hcalled hmade)
      | error e =>
        refine .refused hkey hrule (failsOnly_ofRule (fun hform => ?_) e hmade)
        rw [hcalled hform]
        exact fun hnone => hcalls ⟨hform, hnone⟩

/-- Reading ends in an error of the kind. -/
def FailsAs (kind : String) (x : Except Error (Condition s)) : Prop := ∃ e, x = .error e ∧ e.kind = kind

/-- No row accepts the operator and the value, or the row is that of the functions and no function
of the first column's name takes the value. -/
def Unruled (key : Key) (value : Json) : Prop :=
  (∀ rule ∈ Rule.table, rule.accepts key.operator value = false) ∨
    ∃ rule : Rule, rule.IsRow key.operator value ∧
      rule.CallsNothing (key.columns.head?.getD "") value

/-- An entry is malformed exactly if its key cannot be split. -/
theorem failsAs_malformed_iff : FailsAs "MalformedOperator" (ofEntry m text value (readersOf value)) ↔
    Key.parse text = none := by
  constructor
  · rintro ⟨e, herror, hkind⟩
    have houtcome := outcome_ofEntry m text value
    rw [herror] at houtcome
    cases houtcome with
    | malformed hkey => exact hkey
    | unrecognized => exact absurd hkind (by simp [Error.kind])
    | refused _ _ hcontent =>
      rw [hkind] at hcontent
      exact absurd hcontent (by decide)
  · intro hkey
    refine ⟨.malformedKey m.name text value, ?_, rfl⟩
    rw [ofEntry_eq, hkey]

/-- An entry is not recognized exactly if its key can be split and no row takes it. -/
theorem failsAs_unrecognized_iff : FailsAs "UnrecognizedRule" (ofEntry m text value (readersOf value)) ↔
    ∃ key, Key.parse text = some key ∧ Unruled key value := by
  constructor
  · rintro ⟨e, herror, hkind⟩
    have houtcome := outcome_ofEntry m text value
    rw [herror] at houtcome
    cases houtcome with
    | malformed => exact absurd hkind (by simp [Error.kind])
    | unrecognized hkey hnone => exact ⟨_, hkey, Rule.find?_eq_none_iff.1 hnone⟩
    | refused _ _ hcontent =>
      rw [hkind] at hcontent
      exact absurd hcontent (by decide)
  · rintro ⟨key, hkey, hunruled⟩
    refine ⟨.unrecognizedRule m.name text value, ?_, rfl⟩
    rw [ofEntry_eq, hkey]
    dsimp only
    rw [Rule.find?_eq_none_iff.2 hunruled]

/-- An error about the key, or about key and value together, tells the model, the key and the value. -/
theorem error_eq_of_kind {e : Error} (h : ofEntry m text value (readersOf value) = .error e) :
    (e.kind = "MalformedOperator" → e = .malformedKey m.name text value) ∧
      (e.kind = "UnrecognizedRule" → e = .unrecognizedRule m.name text value) := by
  have houtcome := outcome_ofEntry m text value
  rw [h] at houtcome
  cases houtcome with
  | malformed => exact ⟨fun _ => rfl, fun hkind => absurd hkind (by simp [Error.kind])⟩
  | unrecognized => exact ⟨fun hkind => absurd hkind (by simp [Error.kind]), fun _ => rfl⟩
  | refused _ _ hcontent =>
    refine ⟨fun hkind => ?_, fun hkind => ?_⟩
    all_goals
      rw [hkind] at hcontent
      exact absurd hcontent (by decide)

/-- With a row that calls something, an entry is a condition of the row's form or is refused for its
contents. -/
theorem made_or_refused {key : Key} {rule : Rule} (hkey : Key.parse text = some key)
    (hrow : rule.IsRow key.operator value)
    (hcalls : ¬rule.CallsNothing (key.columns.head?.getD "") value) :
    (∃ c, ofEntry m text value (readersOf value) = .ok c ∧
        c.IsOf rule (key.columns.map (Column.ofText m))
          (FunctionName.find? (key.columns.head?.getD "") value)) ∨
      ∃ e, ofEntry m text value (readersOf value) = .error e ∧ e.kind ∈ Error.contentKinds := by
  have hruled := Rule.find?_eq_some_iff.2 ⟨hrow, hcalls⟩
  have houtcome := outcome_ofEntry m text value
  -- of the four outcomes two have no row, and the row of the others is this one
  generalize ofEntry m text value (readersOf value) = outcome at houtcome
  cases houtcome with
  | malformed hnone => exact absurd (hkey.symm.trans hnone) (by simp)
  | unrecognized hsplit hnone =>
    cases hkey.symm.trans hsplit
    exact absurd (hruled.symm.trans hnone) (by simp)
  | made hsplit hfound form =>
    cases hkey.symm.trans hsplit
    cases hruled.symm.trans hfound
    exact .inl ⟨_, rfl, form⟩
  | refused _ _ hcontent => exact .inr ⟨_, rfl, hcontent⟩

/-- Every operator and value has at most one row, and exactly one without an operator, so the rows
may be tried in any order. The outcome of an entry is told from its key and its row: a key without
columns is malformed; an entry without a row, or with a call of nothing, is not recognized; any
other is a condition of its row's form or is refused for its contents. A function is the same
whether it is looked up by the column that was written or by the one that was read. -/
theorem dispatch_classified (m : Model s) (text : String) (value : Json) :
    (∀ operator v, Rule.table.countP (·.accepts operator v) ≤ 1) ∧
      (∀ v, Rule.table.countP (·.accepts "" v) = 1) ∧
      (∀ rules : List Rule, rules.Perm Rule.table →
        ofEntryIn rules m text value (readersIn rules value) = ofEntry m text value (readersOf value)) ∧
      (FailsAs "MalformedOperator" (ofEntry m text value (readersOf value)) ↔
        Key.parse text = none) ∧
      (FailsAs "UnrecognizedRule" (ofEntry m text value (readersOf value)) ↔
        ∃ key, Key.parse text = some key ∧ Unruled key value) ∧
      (∀ e, ofEntry m text value (readersOf value) = .error e →
        (e.kind = "MalformedOperator" → e = .malformedKey m.name text value) ∧
          (e.kind = "UnrecognizedRule" → e = .unrecognizedRule m.name text value)) ∧
      (∀ key rule, Key.parse text = some key → rule.IsRow key.operator value →
        ¬rule.CallsNothing (key.columns.head?.getD "") value →
          (∃ c, ofEntry m text value (readersOf value) = .ok c ∧
              c.IsOf rule (key.columns.map (Column.ofText m))
                (FunctionName.find? (key.columns.head?.getD "") value)) ∨
            ∃ e, ofEntry m text value (readersOf value) = .error e ∧ e.kind ∈ Error.contentKinds) ∧
      ∀ key f, Key.parse text = some key →
        FunctionName.find? (key.columns.head?.getD "") value = some f →
          FunctionName.find? (((key.columns.map (Column.ofText m)).head?.map Column.text).getD "")
            value = some f := by
  refine ⟨Rule.countP_accepts_le_one, Rule.countP_accepts_empty, fun rules hperm => ?_,
    failsAs_malformed_iff, failsAs_unrecognized_iff, fun e => error_eq_of_kind,
    fun key rule => made_or_refused, fun key f _ hfound => FunctionName.find?_head_ofText hfound m⟩
  have hfind := Rule.findIn?_eq_of_perm hperm
  rw [ofEntryIn_congr hfind, readersIn_congr fun inner _ => ofFieldsIn_congr hfind inner]
  rfl

end Entries

end Condition

end DocQuery
