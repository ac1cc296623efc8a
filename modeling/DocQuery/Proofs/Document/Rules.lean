import DocQuery.Proofs.Document.Access
import Mathlib.Data.List.Find

namespace DocQuery

/-! # What rules make of entries

Which rule an entry has, and what conditions a rule makes of columns and a value. What the columns
are called matters to messages alone.

* `ofFields_eq_ok_iff`: a document is read entry by entry.
* `ofRule_test_iff`: what a row that tests columns makes of them.
* `ofRelationJoin_eq_ok_iff`: what the row of relation joins makes of them.
-/

variable {s : Schema}

/-! ## Choosing a rule -/

/-- A name that is no function's calls none. -/
theorem FunctionName.find?_eq_none {name : String} (h : ∀ f ∈ all, f.text ≠ name) (value : Json) :
    find? name value = none := by
  rw [find?, List.find?_eq_none]
  intro f hf
  simp [h f hf]

namespace Rule

/-- The operator of the functions is theirs alone. -/
theorem form_function_iff : ∀ rule ∈ table, rule.form = .function ↔ rule.operator = ":" := by
  decide

/-- The row of an entry is in the table and has its operator. -/
theorem mem_of_find? {operator name : String} {value : Json} {rule : Rule}
    (h : find? operator name value = some rule) :
    rule ∈ table ∧ rule.operator = operator ∧
      (rule.form = .function → ∃ f ∈ FunctionName.all, f.text = name) := by
  unfold find? findIn? at h
  have hrule := List.find?_some h
  simp only [accepts, Bool.and_eq_true, beq_iff_eq, Bool.or_eq_true, decide_eq_true_eq] at hrule
  rcases hrule with ⟨⟨hoperator, _⟩, hfunction⟩
  refine ⟨List.mem_of_find?_eq_some h, hoperator, fun hform => ?_⟩
  -- a name that is no function's is found as none
  by_contra hnone
  have hnames : ∀ f ∈ FunctionName.all, f.text ≠ name := fun f hf heq => hnone ⟨f, hf, heq⟩
  rw [FunctionName.find?_eq_none hnames] at hfunction
  rcases hfunction with hother | hsome
  · exact hother hform
  · cases hsome

/-- Only the functions are told apart by name. -/
theorem find?_of_name {operator name : String} {value : Json} {rule : Rule} (name' : String)
    (h : find? operator name value = some rule) (hform : rule.form ≠ .function) :
    find? operator name' value = some rule := by
  rcases mem_of_find? h with ⟨htable, hoperator, _⟩
  have hcolon : operator ≠ ":" := by
    rintro rfl
    exact hform ((form_function_iff rule htable).2 hoperator)
  rw [← h]
  unfold find? findIn?
  refine List.find?_congr fun other hother => ?_
  -- rules of other operators are passed over under every name
  by_cases hsame : other.operator = operator
  · have hother' : other.form ≠ .function := fun hfunction =>
      hcolon (hsame ▸ (form_function_iff other hother).1 hfunction)
    simp [hother']
  · have hdiffers : (other.operator == operator) = false := beq_false_of_ne hsame
    simp [accepts, hdiffers]

end Rule

namespace Condition

variable {m : Model s} {columns : List (Column s)} {value : Json} {readers : List (DocumentReader s)}
  {c : Condition s}

/-- An entry is read if its key can be split, a row takes it and the row makes a condition of it. -/
theorem ofEntry_eq_ok_iff {text : String} :
    ofEntry m text value readers = .ok c ↔ ∃ key rule, Key.parse text = some key ∧
      Rule.find? key.operator (key.columns.head?.getD "") value = some rule ∧
      ofRule rule m (key.columns.map (Column.ofText m)) value readers = .ok c := by
  rw [ofEntry_eq]
  cases Key.parse text with
  | none => simp
  | some key =>
    simp only [Option.some.injEq, exists_and_left, exists_eq_left']
    cases Rule.find? key.operator (key.columns.head?.getD "") value with
    | none => simp
    | some rule => simp

/-- A document is read entry by entry. -/
theorem ofFields_eq_ok_iff {fields : List (String × Json)} {conditions : List (Condition s)} :
    ofFields fields m = .ok conditions ↔ List.Forall₂ (fun field c =>
      ofEntry m field.1 field.2 (readersOf field.2) = .ok c) fields conditions := by
  induction fields generalizing conditions with
  | nil =>
    rw [ofFields_nil, List.forall₂_nil_left_iff]
    constructor
    · intro h
      cases h
      rfl
    · rintro rfl
      rfl
  -- entry by entry, so the conditions stand in the order of the entries
  | cons field fields ih =>
    rcases field with ⟨key, value⟩
    simp only [ofFields_cons, bind_eq_ok_iff, pure_eq_ok_iff, ih, List.forall₂_cons_left_iff]
    constructor
    · rintro ⟨c, hc, rest, hrest, rfl⟩
      exact ⟨c, rest, hc, hrest, rfl⟩
    · rintro ⟨c, rest, hc, hrest, rfl⟩
      exact ⟨c, hc, rest, hrest, rfl⟩

/-- The entries of a document are read one by one, so those behind others do not matter to them. -/
theorem ofFields_append_eq_ok_iff {front back : List (String × Json)} {conditions : List (Condition s)} :
    ofFields (front ++ back) m = .ok conditions ↔ ∃ first rest, ofFields front m = .ok first ∧
      ofFields back m = .ok rest ∧ conditions = first ++ rest := by
  simp only [ofFields_eq_ok_iff]
  constructor
  · intro h
    exact ⟨_, _, (List.forall₂_take_append _ _ _ h.flip).flip,
      (List.forall₂_drop_append _ _ _ h.flip).flip, (List.take_append_drop _ _).symm⟩
  · rintro ⟨first, rest, hfirst, hrest, rfl⟩
    exact List.rel_append hfirst hrest

end Condition

/-! ## Labels -/

/-- The label of a value is for messages. -/
theorem Operand.bind_ok_of_label {label : String} (label' : String) {value : Json}
    {chronological : Bool} {o : Operand} (h : bind label value chronological = .ok o) :
    bind label' value chronological = .ok o := by
  unfold bind at h ⊢
  split at h
  · split at h
    · cases h
      rfl
    · cases h
  · split at h
    · cases h
      rfl
    · cases h

namespace TimeSpan

/-- An instant is read under any label. -/
theorem readInstant_ok_of_label {label : String} (label' : String) {text : String} {t : Timestamp}
    (h : readInstant label text = .ok t) : readInstant label' text = .ok t := by
  unfold readInstant at h ⊢
  split at h
  · cases h
    rfl
  · cases h

/-- A time span begins with a text, and ends with a text too or with a number that says how long it
lasts. -/
theorem items_of_read {label : String} {items : List Json} {span : TimeSpan}
    (h : read label items = .ok span) : (∃ t, items[0]? = some (.string t)) ∧
      ((∃ t, items[1]? = some (.string t)) ∨ ∃ n, items[1]? = some (.number n)) := by
  unfold read at h
  generalize items[0]? = first at h ⊢
  generalize items[1]? = second at h ⊢
  -- only a text can start a span
  have hstart : ∃ t, first = some (.string t) := by
    match first with
    | some (.string t) => exact ⟨t, rfl⟩
    | none => cases h
    | some .null => cases h
    | some (.bool _) => cases h
    | some (.number _) => cases h
    | some (.array _) => cases h
    | some (.object _) => cases h
  refine ⟨hstart, ?_⟩
  rcases hstart with ⟨t, rfl⟩
  rw [bind_eq_ok_iff] at h
  rcases h with ⟨start, _, h⟩
  -- and only a text or a number can end it
  match second with
  | some (.string t') => exact .inl ⟨t', rfl⟩
  | some (.number n) => exact .inr ⟨n, rfl⟩
  | none => cases h
  | some .null => cases h
  | some (.bool _) => cases h
  | some (.array _) => cases h
  | some (.object _) => cases h

/-- The label of a time span is for messages. -/
theorem read_ok_of_label {label : String} (label' : String) {items : List Json} {span : TimeSpan}
    (h : read label items = .ok span) : read label' items = .ok span := by
  rcases items_of_read h with ⟨⟨t, hfirst⟩, hsecond⟩
  unfold read at h ⊢
  rw [hfirst, bind_eq_ok_iff] at h
  rcases h with ⟨start, hstart, h⟩
  rw [hfirst]
  refine bind_eq_ok_iff.2 ⟨start, readInstant_ok_of_label label' hstart, ?_⟩
  -- the end is an instant, or a duration behind the start
  rcases hsecond with ⟨t', hsecond⟩ | ⟨n, hsecond⟩
  · rw [hsecond, bind_eq_ok_iff] at h
    rcases h with ⟨stop, hstop, h⟩
    rw [hsecond]
    exact bind_eq_ok_iff.2 ⟨stop, readInstant_ok_of_label label' hstop, h⟩
  · rw [hsecond] at h ⊢
    cases hafter : after start n with
    | none =>
      simp only [hafter] at h
      cases h
    | some stop =>
      simp only [hafter] at h ⊢
      exact h

end TimeSpan

/-! ## Columns that are reached -/

/-- Behind an open path only the last name can be protected. -/
theorem OpenPath.protectedFrom_eq {m n : Model s} {path : List String} (h : OpenPath m path n)
    (name : Option String) : Column.protectedFrom m name path = name.any n.isProtected := by
  induction h with
  | here m => rfl
  | step shown found _ ih =>
    rw [Column.protectedFrom, Column.isProtected_eq_false_iff.2 shown, found]
    exact ih

namespace Column

/-- A column behind an open path is allowed if its last name is not hidden. -/
theorem checkAllowed_of_openPath {c : Column s} {n : Model s} (hopen : OpenPath c.model c.path n)
    (hname : ∀ name ∈ c.name, name ∉ n.definition.hidden) : c.checkAllowed = .ok () := by
  rw [checkAllowed_eq_ok_iff, isProtected, hopen.protectedFrom_eq]
  cases hcolumn : c.name with
  | none => rfl
  | some name => exact isProtected_eq_false_iff.2 (hname name hcolumn)

/-- The check of a column succeeds exactly if it leads to a column. -/
theorem check_eq_ok_iff {c : Column s} : c.check = .ok () ↔ c.LeadsToColumn c.model := by
  constructor
  · intro h
    rw [check] at h
    split at h
    · rename_i hcolumn
      exact leadsToColumn_of_check hcolumn h
    · cases h
  · intro h
    rw [check, if_pos h.isColumn_eq]
    rcases h with ⟨_, n, name, hopen, hname, hshown, _⟩
    refine checkAllowed_of_openPath hopen fun name' hname' => ?_
    rw [hname] at hname'
    cases hname'
    exact hshown

/-- The check of all columns succeeds exactly if each of them does. -/
theorem checkAll_eq_ok_iff {m : Model s} {columns : List (Column s)}
    (hmodel : ∀ c ∈ columns, c.model = m) :
    checkAll columns = .ok () ↔ ∀ c ∈ columns, c.LeadsToColumn m := by
  refine ⟨leadsToColumn_of_checkAll hmodel, fun h => ?_⟩
  induction columns with
  | nil => rfl
  | cons c columns ih =>
    have hfirst : c.check = .ok () := by
      rw [check_eq_ok_iff, hmodel c List.mem_cons_self]
      exact h c List.mem_cons_self
    rw [checkAll, hfirst]
    exact ih (fun d hd => hmodel d (List.mem_cons_of_mem _ hd))
      fun d hd => h d (List.mem_cons_of_mem _ hd)

/-- A column leads to rows if it has a target and may be reached. -/
theorem leadsToRows_iff {m n : Model s} {c : Column s} (hc : c.ReadOn m) : c.LeadsToRows m n ↔
    c.relationTarget? = some n ∧ c.checkAllowed = .ok () := by
  constructor
  · intro h
    refine ⟨h.relationTarget?_eq, ?_⟩
    -- the rows of a path alone, or those of the relation that the name stands for
    rcases h with ⟨⟨rfl, hpath, hname⟩, rfl⟩ | ⟨r, ⟨rfl, k, name, hopen, hname, hshown, _⟩, _⟩
    · have hopen : OpenPath c.model c.path c.model := hpath ▸ .here c.model
      refine checkAllowed_of_openPath hopen fun name hname' => ?_
      rw [hname] at hname'
      cases hname'
    · refine checkAllowed_of_openPath hopen fun name' hname' => ?_
      rw [hname] at hname'
      cases hname'
      exact hshown
  · rintro ⟨htarget, hallowed⟩
    exact Condition.leadsToRows_of_check hc htarget hallowed

end Column

/-! ## Making conditions -/

/-- The condition tests columns. -/
def Form.isTest : Form → Bool
  | comparison .. | presence _ | membership _ | range _ | overlap _ => true
  | _ => false

/-- A test calls no function. -/
theorem Form.ne_function_of_isTest {form : Form} (h : form.isTest = true) : form ≠ .function := by
  rintro rfl
  cases h

namespace Condition

variable {m : Model s} {columns : List (Column s)} {value : Json} {readers : List (DocumentReader s)}
  {c : Condition s}

/-- A list is accepted if it has items. -/
theorem checkNonempty_eq_ok_iff {label : String} {values : List Json} {u : Unit} :
    checkNonempty label values = .ok u ↔ values ≠ [] := by
  cases values <;> simp [checkNonempty]

/-- What a rule makes of a value that columns are tested with: the condition on any columns. Of the
columns only their number counts, and whether texts compared with them are timestamps. -/
inductive Makes (rule : Rule) (value : Json) (chronological : Bool) (count : Nat) :
    (List (Column s) → Condition s) → Prop where
  | comparison {template : String} {temporal : Bool} {values : List Operand}
      (form : rule.form = .comparison template temporal) (nonempty : items value ≠ [])
      (bound : List.Forall₂ (fun v o => Operand.bind "" v (temporal && chronological) = .ok o)
        (items value) values) :
      Makes rule value chronological count fun columns => .comparison rule.name template columns values
  | presence {template : String} (form : rule.form = .presence template) :
      Makes rule value chronological count fun columns => .presence rule.name template columns
  | membership {template : String} {values : Operand} (form : rule.form = .membership template)
      (nonempty : items value ≠ []) (bound : Operand.bind "" value false = .ok values) :
      Makes rule value chronological count fun columns => .membership rule.name template columns values
  | range {template : String} {first second : Json} {low high : Operand}
      (form : rule.form = .range template) (pair : items value = [first, second])
      (lower : Operand.bind "" first chronological = .ok low)
      (upper : Operand.bind "" second chronological = .ok high) :
      Makes rule value chronological count fun columns => .range rule.name template columns low high
  | overlap {template : String} {span : TimeSpan} (form : rule.form = .overlap template)
      (paired : count % 2 ≠ 1) (read : TimeSpan.read "" (items value) = .ok span) :
      Makes rule value chronological count fun columns => .overlap rule.name template columns span

/-- A test is made exactly if its columns are reached and the rule makes something of the value. -/
theorem ofRule_test_iff {rule : Rule} (htest : rule.form.isTest = true)
    (hmodel : ∀ c ∈ columns, c.model = m) : ofRule rule m columns value readers = .ok c ↔
      (∀ c ∈ columns, c.LeadsToColumn m) ∧
        ∃ make, Makes rule value (columns.any Column.isChronological) columns.length make ∧
          c = make columns := by
  rw [← Column.checkAll_eq_ok_iff hmodel]
  unfold ofRule
  constructor
  · intro h
    split at h
    · rename_i template temporal hform
      simp only [ofComparison, bind_eq_ok_iff, pure_eq_ok_iff, checkNonempty_eq_ok_iff,
        mapM_eq_ok_iff] at h
      rcases h with ⟨_, hcheck, _, hnonempty, values, hvalues, rfl⟩
      have hbound := hvalues.imp fun _ _ => Operand.bind_ok_of_label ""
      exact ⟨hcheck, _, .comparison hform hnonempty hbound, rfl⟩
    · rename_i template hform
      simp only [ofPresence, bind_eq_ok_iff, pure_eq_ok_iff] at h
      rcases h with ⟨_, hcheck, rfl⟩
      exact ⟨hcheck, _, .presence hform, rfl⟩
    · rename_i template hform
      simp only [ofMembership, bind_eq_ok_iff, pure_eq_ok_iff, checkNonempty_eq_ok_iff] at h
      rcases h with ⟨_, hcheck, _, hnonempty, values, hvalues, rfl⟩
      exact ⟨hcheck, _, .membership hform hnonempty (Operand.bind_ok_of_label "" hvalues), rfl⟩
    · rename_i template hform
      simp only [ofRange, bind_eq_ok_iff] at h
      rcases h with ⟨_, hcheck, h⟩
      split at h
      · rename_i first second hpair
        simp only [bind_eq_ok_iff, pure_eq_ok_iff] at h
        rcases h with ⟨low, hlow, high, hhigh, rfl⟩
        have hlower := Operand.bind_ok_of_label "" hlow
        have hupper := Operand.bind_ok_of_label "" hhigh
        exact ⟨hcheck, _, .range hform hpair hlower hupper, rfl⟩
      · cases h
    · rename_i template hform
      simp only [ofOverlap, bind_eq_ok_iff] at h
      rcases h with ⟨_, hcheck, h⟩
      split at h
      · cases h
      · rename_i hpaired
        simp only [bind_eq_ok_iff, pure_eq_ok_iff] at h
        rcases h with ⟨span, hspan, rfl⟩
        exact ⟨hcheck, _, .overlap hform hpaired (TimeSpan.read_ok_of_label "" hspan), rfl⟩
    -- the other forms are no tests
    all_goals
      rename_i hform
      rw [hform] at htest
      cases htest
  · rintro ⟨hcheck, make, hmake, rfl⟩
    -- the label only words a failure: what is read under the empty one is read under the rule's
    cases hmake with
    | comparison hform hnonempty hvalues =>
      rw [hform]
      simp only [ofComparison, bind_eq_ok_iff, pure_eq_ok_iff, checkNonempty_eq_ok_iff, mapM_eq_ok_iff]
      exact ⟨(), hcheck, (), hnonempty, _, hvalues.imp fun _ _ => Operand.bind_ok_of_label _, rfl⟩
    | presence hform =>
      rw [hform]
      simp only [ofPresence, bind_eq_ok_iff]
      exact ⟨(), hcheck, rfl⟩
    | membership hform hnonempty hvalues =>
      rw [hform]
      simp only [ofMembership, bind_eq_ok_iff, pure_eq_ok_iff, checkNonempty_eq_ok_iff]
      exact ⟨(), hcheck, (), hnonempty, _, Operand.bind_ok_of_label _ hvalues, rfl⟩
    | range hform hpair hlow hhigh =>
      rw [hform]
      simp only [ofRange, bind_eq_ok_iff, pure_eq_ok_iff, hpair]
      exact ⟨(), hcheck, _, Operand.bind_ok_of_label _ hlow, _, Operand.bind_ok_of_label _ hhigh, rfl⟩
    | overlap hform hpaired hspan =>
      rw [hform]
      simp only [ofOverlap, bind_eq_ok_iff, pure_eq_ok_iff, if_neg hpaired]
      exact ⟨(), hcheck, _, TimeSpan.read_ok_of_label _ hspan, rfl⟩

/-- A relation is followed exactly if its rows are reached and all documents can be read there. -/
theorem joinTarget_eq_ok_iff {column : Column s} {t : Target s (List (List (Condition s)))}
    (hcolumn : column.ReadOn m) : joinTarget readers column = .ok t ↔
      t.column = column ∧ ∃ n, column.LeadsToRows m n ∧
        List.Forall₂ (fun read document => read n = .ok document) readers t.nested := by
  simp only [Column.leadsToRows_iff hcolumn]
  unfold joinTarget
  constructor
  · intro h
    split at h
    · cases h
    · rename_i n htarget
      simp only [bind_eq_ok_iff, pure_eq_ok_iff, mapM_eq_ok_iff] at h
      rcases h with ⟨_, hallowed, documents, hdocuments, rfl⟩
      exact ⟨rfl, n, ⟨htarget, hallowed⟩, hdocuments⟩
  · -- the check, and then the documents in their order
    rcases t with ⟨_, documents⟩
    rintro ⟨rfl, n, ⟨htarget, hallowed⟩, hdocuments⟩
    rw [htarget]
    simp only [bind_eq_ok_iff, pure_eq_ok_iff, mapM_eq_ok_iff]
    exact ⟨(), hallowed, documents, hdocuments, rfl⟩

/-- Relations are joined exactly if each of them is followed. -/
theorem ofRelationJoin_eq_ok_iff : ofRelationJoin columns readers = .ok c ↔
    ∃ targets, List.Forall₂ (fun column t => joinTarget readers column = .ok t) columns targets ∧
      c = .relationJoin targets := by
  simp only [ofRelationJoin, bind_eq_ok_iff, pure_eq_ok_iff, mapM_eq_ok_iff]
  constructor
  · rintro ⟨targets, htargets, rfl⟩
    exact ⟨targets, htargets, rfl⟩
  · rintro ⟨targets, htargets, rfl⟩
    exact ⟨targets, htargets, rfl⟩

end Condition

end DocQuery
