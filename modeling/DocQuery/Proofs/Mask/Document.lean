import DocQuery.Proofs.Mask.Value

namespace DocQuery

/-! # Masked documents

A document that can be read can be read masked, and the conditions are the same but for their
operands, which are masked. No rule is chosen for the content of a value; only functions look at it.

* `find?_masked`: a masked value has the rule of the value.
* `ofEntry_masked`: what a rule makes of a masked value is what it makes of the value, masked.
* `ofDocument_masked`: so does reading a document.
-/

variable {s : Schema}

namespace Condition

mutual

/-- The condition without the content of its operands. -/
def masked : Condition s → Condition s
  | .comparison rule template columns values =>
    .comparison rule template columns (values.map Operand.masked)
  | .presence rule template columns => .presence rule template columns
  | .membership rule template columns values => .membership rule template columns values.masked
  | .range rule template columns low high => .range rule template columns low.masked high.masked
  | .overlap rule template columns _ => .overlap rule template columns TimeSpan.masked
  | .relationJoin targets => .relationJoin (maskedJoins targets)
  | .derivedJoin column relation subquery conditions =>
    .derivedJoin column relation (maskedEach subquery) (maskedEach conditions)
  | .select targets => .select (maskedSelects targets)
  | .order entries => .order entries
  | .limit n => .limit n
  | .offset n => .offset n

def maskedEach : List (Condition s) → List (Condition s)
  | [] => []
  | condition :: conditions => condition.masked :: maskedEach conditions

def maskedDocuments : List (List (Condition s)) → List (List (Condition s))
  | [] => []
  | document :: documents => maskedEach document :: maskedDocuments documents

def maskedJoins : List (Target s (List (List (Condition s)))) →
    List (Target s (List (List (Condition s))))
  | [] => []
  | ⟨column, documents⟩ :: targets => ⟨column, maskedDocuments documents⟩ :: maskedJoins targets

def maskedSelects : List (Target s (List (Condition s))) → List (Target s (List (Condition s)))
  | [] => []
  | ⟨column, conditions⟩ :: targets => ⟨column, maskedEach conditions⟩ :: maskedSelects targets

end

theorem maskedDocuments_eq_map (documents : List (List (Condition s))) :
    maskedDocuments documents = documents.map maskedEach := by
  induction documents with
  | nil => rfl
  | cons document documents ih => exact congrArg (maskedEach document :: ·) ih

theorem maskedJoins_eq_map (targets : List (Target s (List (List (Condition s))))) :
    maskedJoins targets = targets.map fun t => ⟨t.column, maskedDocuments t.nested⟩ := by
  induction targets with
  | nil => rfl
  | cons target targets ih =>
    exact congrArg (⟨target.column, maskedDocuments target.nested⟩ :: ·) ih

theorem maskedSelects_eq_map (targets : List (Target s (List (Condition s)))) :
    maskedSelects targets = targets.map fun t => ⟨t.column, maskedEach t.nested⟩ := by
  induction targets with
  | nil => rfl
  | cons target targets ih =>
    exact congrArg (⟨target.column, maskedEach target.nested⟩ :: ·) ih

end Condition

/-! ## Rules -/

theorem Json.all_isObject_masked (items : List Json) :
    (items.map Json.masked).all Json.isObject = items.all Json.isObject := by
  simp only [List.all_map, Function.comp_def, Json.isObject_masked]

/-- Only the class of counts looks at the content of a value. -/
theorem Shape.accepts_masked {shape : Shape} (h : shape ≠ .count) (value : Json) :
    shape.accepts value.masked = shape.accepts value := by
  cases value with
  | array items =>
    -- how many items there are and of what kind is kept
    rw [Json.masked, Json.maskedItems_eq_map]
    cases shape with
    | count => exact absurd rfl h
    | pair => simp only [accepts, List.length_map]
    | objectList =>
      simp only [accepts, List.isEmpty_map, Json.all_isObject_masked]
    | subQuery =>
      simp only [accepts, List.length_map, Json.all_isObject_masked]
    | timeSpan =>
      match items with
      | [start, stop] =>
        simp only [List.map_cons, List.map_nil, accepts, Json.isString_masked, Json.isNumber_masked]
      | [] => rfl
      | [_] => rfl
      | _ :: _ :: _ :: _ => rfl
    | _ => rfl
  | number n =>
    rw [Json.masked]
    cases shape with
    | count => exact absurd rfl h
    | _ => rfl
  | _ => cases shape <;> rfl

namespace Rule

/-- The rules of the grammar do not ask for counts. -/
theorem shapes_ne_count : ∀ rule ∈ table, ∀ shape ∈ rule.shapes, shape ≠ .count := by
  decide

theorem accepts_masked {rule : Rule} (h : rule ∈ table) (operator : String) (value : Json) :
    rule.accepts operator value.masked = rule.accepts operator value := by
  have hshapes : (rule.shapes.any (·.accepts value.masked)) = rule.shapes.any (·.accepts value) := by
    rw [Bool.eq_iff_iff, List.any_eq_true, List.any_eq_true]
    refine exists_congr fun shape => and_congr_right fun hshape => ?_
    rw [Shape.accepts_masked (shapes_ne_count rule h shape hshape)]
  rw [accepts, accepts, hshapes]

/-- A masked value meets the rule of the value, unless a function is called. -/
theorem find?_masked {operator name : String}
    (h : operator = ":" → ∀ f ∈ FunctionName.all, f.text ≠ name) (value : Json) :
    find? operator name value.masked = find? operator name value := by
  unfold find? findIn?
  refine List.find?_congr fun rule hrule => ?_
  rw [accepts_masked hrule]
  by_cases hoperator : rule.operator = operator
  · by_cases hform : rule.form = .function
    · have hnames := h (hoperator ▸ (form_function_iff rule hrule).1 hform)
      rw [FunctionName.find?_eq_none hnames, FunctionName.find?_eq_none hnames]
    · simp [hform]
  · have hother : (rule.operator == operator) = false := beq_false_of_ne hoperator
    simp [accepts, hother]

end Rule

/-! ## Forms -/

/-- Where each result has a counterpart, so have all results together. -/
theorem mapM_ok_of_forall₂ {ε α α' β β' : Type} {f : α → Except ε β} {f' : α' → Except ε β'}
    {g : β → β'} {xs : List α} {xs' : List α'} {ys : List β}
    (h : List.Forall₂ (fun x x' => ∀ y, f x = .ok y → f' x' = .ok (g y)) xs xs')
    (hys : xs.mapM f = .ok ys) : xs'.mapM f' = .ok (ys.map g) := by
  induction h generalizing ys with
  | nil =>
    rw [List.mapM_nil, pure_eq_ok_iff] at hys
    subst hys
    rfl
  | cons hfirst _ ih =>
    rw [List.mapM_cons, bind_eq_ok_iff] at hys
    rcases hys with ⟨y, hy, hys⟩
    rw [bind_eq_ok_iff] at hys
    rcases hys with ⟨rest, hrest, hys⟩
    rw [pure_eq_ok_iff] at hys
    subst hys
    rw [List.mapM_cons, hfirst y hy, ih hrest]
    rfl

namespace Condition

variable {m : Model s} {columns : List (Column s)} {value : Json} {c : Condition s}

theorem items_masked (value : Json) : items value.masked = (items value).map Json.masked := by
  cases value with
  | array values => exact Json.maskedItems_eq_map values
  | _ => rfl

theorem checkNonempty_masked (label : String) (values : List Json) :
    checkNonempty label (values.map Json.masked) = checkNonempty label values := by
  rw [checkNonempty, checkNonempty, List.isEmpty_map]

theorem ofComparison_masked {rule template : String} {temporal : Bool}
    (h : ofComparison rule template temporal columns value = .ok c) :
    ofComparison rule template temporal columns value.masked = .ok c.masked := by
  simp only [ofComparison, bind_eq_ok_iff, pure_eq_ok_iff, items_masked, checkNonempty_masked] at h ⊢
  rcases h with ⟨_, hcheck, _, hnonempty, values, hvalues, rfl⟩
  refine ⟨_, hcheck, _, hnonempty, values.map Operand.masked, ?_, rfl⟩
  refine mapM_ok_of_forall₂ (List.forall₂_map_right_iff.2 (List.forall₂_same.2 ?_)) hvalues
  intro v _ o ho
  exact Operand.bind_masked ho

theorem ofPresence_masked {rule template : String} (h : ofPresence rule template columns = .ok c) :
    ofPresence rule template columns = .ok c.masked := by
  have hsame := h
  simp only [ofPresence, bind_eq_ok_iff, pure_eq_ok_iff] at h
  rcases h with ⟨_, _, rfl⟩
  rw [masked, hsame]

theorem ofMembership_masked {rule template : String}
    (h : ofMembership rule template columns value = .ok c) :
    ofMembership rule template columns value.masked = .ok c.masked := by
  simp only [ofMembership, bind_eq_ok_iff, pure_eq_ok_iff, items_masked, checkNonempty_masked] at h ⊢
  rcases h with ⟨_, hcheck, _, hnonempty, values, hvalues, rfl⟩
  exact ⟨_, hcheck, _, hnonempty, values.masked, Operand.bind_masked hvalues, rfl⟩

theorem ofRange_masked {rule template : String} (h : ofRange rule template columns value = .ok c) :
    ofRange rule template columns value.masked = .ok c.masked := by
  simp only [ofRange, bind_eq_ok_iff, items_masked] at h ⊢
  rcases h with ⟨_, hcheck, h⟩
  refine ⟨_, hcheck, ?_⟩
  rcases hitems : items value with _ | ⟨low, _ | ⟨high, _ | ⟨third, rest⟩⟩⟩
  · rw [hitems] at h
    cases h
  · rw [hitems] at h
    cases h
  · simp only [hitems, bind_eq_ok_iff, pure_eq_ok_iff] at h
    rcases h with ⟨low', hlow, high', hhigh, rfl⟩
    simp only [List.map_cons, List.map_nil, bind_eq_ok_iff, pure_eq_ok_iff]
    exact ⟨_, Operand.bind_masked hlow, _, Operand.bind_masked hhigh, rfl⟩
  · rw [hitems] at h
    cases h

theorem ofOverlap_masked {rule template : String} (h : ofOverlap rule template columns value = .ok c) :
    ofOverlap rule template columns value.masked = .ok c.masked := by
  simp only [ofOverlap, bind_eq_ok_iff, items_masked] at h ⊢
  rcases h with ⟨_, hcheck, h⟩
  refine ⟨_, hcheck, ?_⟩
  split at h
  · cases h
  · rename_i hpaired
    simp only [bind_eq_ok_iff, pure_eq_ok_iff] at h
    rcases h with ⟨span, hspan, rfl⟩
    rw [if_neg hpaired]
    simp only [bind_eq_ok_iff, pure_eq_ok_iff]
    exact ⟨_, TimeSpan.read_masked hspan, rfl⟩

/-! ## Nested documents -/

/-- Where the first reader gives conditions, the second gives them masked. -/
def ReadsMasked (read read' : DocumentReader s) : Prop :=
  ∀ model conditions, read model = .ok conditions → read' model = .ok (maskedEach conditions)

variable {readers readers' : List (DocumentReader s)}

theorem joinTarget_masked (hreaders : List.Forall₂ ReadsMasked readers readers') {column : Column s}
    {target : Target s (List (List (Condition s)))} (h : joinTarget readers column = .ok target) :
    joinTarget readers' column = .ok ⟨target.column, maskedDocuments target.nested⟩ := by
  unfold joinTarget at h ⊢
  split at h
  · cases h
  · rename_i reached _
    simp only [bind_eq_ok_iff, pure_eq_ok_iff] at h ⊢
    rcases h with ⟨_, hallowed, documents, hdocuments, rfl⟩
    refine ⟨_, hallowed, maskedDocuments documents, ?_, rfl⟩
    rw [maskedDocuments_eq_map]
    exact mapM_ok_of_forall₂ (hreaders.imp fun _ _ hread conditions hok => hread reached conditions hok)
      hdocuments

theorem ofRelationJoin_masked (hreaders : List.Forall₂ ReadsMasked readers readers')
    (h : ofRelationJoin columns readers = .ok c) :
    ofRelationJoin columns readers' = .ok c.masked := by
  simp only [ofRelationJoin, bind_eq_ok_iff, pure_eq_ok_iff] at h ⊢
  rcases h with ⟨targets, htargets, rfl⟩
  refine ⟨maskedJoins targets, ?_, rfl⟩
  rw [maskedJoins_eq_map]
  refine mapM_ok_of_forall₂ (List.forall₂_same.2 fun column _ target htarget => ?_) htargets
  exact joinTarget_masked hreaders htarget

theorem readOptional_masked {read read' : Option (DocumentReader s)}
    (hread : Option.Rel ReadsMasked read read') {conditions : List (Condition s)}
    (h : readOptional read m = .ok conditions) :
    readOptional read' m = .ok (maskedEach conditions) := by
  cases hread with
  | some hread => exact hread m conditions h
  | none =>
    cases h
    rfl

theorem ofDerivedJoin_masked (hreaders : List.Forall₂ ReadsMasked readers readers')
    (h : ofDerivedJoin columns readers = .ok c) :
    ofDerivedJoin columns readers' = .ok c.masked := by
  match columns with
  | [column] =>
    -- the documents are those of the first two readers
    simp only [ofDerivedJoin, bind_eq_ok_iff, pure_eq_ok_iff] at h ⊢
    rcases h with
        ⟨relation, hrelation, _, hallowed, subquery, hsubquery, conditions, hconditions, rfl⟩
    exact ⟨relation, hrelation, _, hallowed,
      _, readOptional_masked (rel_getElem? hreaders 0) hsubquery,
      _, readOptional_masked (rel_getElem? hreaders 1) hconditions, rfl⟩
  | [] => cases h
  | _ :: _ :: _ => cases h

theorem selectTarget_masked {document document' : Option (DocumentReader s)}
    (hdocument : Option.Rel ReadsMasked document document') {column : Column s}
    {target : Target s (List (Condition s))} (h : selectTarget document column = .ok target) :
    selectTarget document' column = .ok ⟨target.column, maskedEach target.nested⟩ := by
  unfold selectTarget at h ⊢
  split at h
  · rename_i hcolumn
    rw [if_pos hcolumn]
    cases hdocument with
    | some _ => cases h
    | none =>
      simp only [Option.isSome_none, Bool.false_eq_true, if_false, bind_eq_ok_iff, pure_eq_ok_iff]
        at h ⊢
      rcases h with ⟨_, hallowed, rfl⟩
      exact ⟨_, hallowed, rfl⟩
  · rename_i hcolumn
    rw [if_neg hcolumn]
    split at h
    · cases h
    · simp only [bind_eq_ok_iff, pure_eq_ok_iff] at h ⊢
      rcases h with ⟨_, hallowed, nested, hnested, rfl⟩
      exact ⟨_, hallowed, _, readOptional_masked hdocument hnested, rfl⟩

theorem hasEntries_masked (value : Json) : hasEntries value.masked = hasEntries value := by
  cases value with
  | object fields => cases fields <;> rfl
  | _ => rfl

theorem ofSelect_masked (hreaders : List.Forall₂ ReadsMasked readers readers')
    (h : ofSelect columns value readers = .ok c) :
    ofSelect columns value.masked readers' = .ok c.masked := by
  have hdocument : Option.Rel ReadsMasked (if hasEntries value then readers.head? else none)
      (if hasEntries value then readers'.head? else none) := by
    split
    · rw [List.head?_eq_getElem?, List.head?_eq_getElem?]
      exact rel_getElem? hreaders 0
    · exact .none
  simp only [ofSelect, hasEntries_masked, bind_eq_ok_iff, pure_eq_ok_iff] at h ⊢
  rcases h with ⟨targets, htargets, rfl⟩
  refine ⟨maskedSelects targets, ?_, rfl⟩
  rw [maskedSelects_eq_map]
  refine mapM_ok_of_forall₂ (List.forall₂_same.2 fun column _ target htarget => ?_) htargets
  exact selectTarget_masked hdocument htarget

/-! ## Entries -/

/-- A condition that a function makes has no operand. -/
theorem masked_of_ofFunction (h : ofFunction m columns value = .ok c) : c.masked = c := by
  simp only [ofFunction] at h
  split at h
  · simp only [bind_eq_ok_iff, pure_eq_ok_iff] at h
    rcases h with ⟨_, _, entries, _, rfl⟩
    rw [masked]
  · cases h
    rw [masked]
  · cases h
    rw [masked]
  · cases h

theorem ofRule_masked {rule : Rule} (hform : rule.form ≠ .function)
    (hreaders : List.Forall₂ ReadsMasked readers readers')
    (h : ofRule rule m columns value readers = .ok c) :
    ofRule rule m columns value.masked readers' = .ok c.masked := by
  unfold ofRule at h ⊢
  cases hrule : rule.form with
  | comparison template temporal =>
    rw [hrule] at h
    exact ofComparison_masked h
  | presence template =>
    rw [hrule] at h
    exact ofPresence_masked h
  | membership template =>
    rw [hrule] at h
    exact ofMembership_masked h
  | range template =>
    rw [hrule] at h
    exact ofRange_masked h
  | overlap template =>
    rw [hrule] at h
    exact ofOverlap_masked h
  | relationJoin =>
    rw [hrule] at h
    exact ofRelationJoin_masked hreaders h
  | derivedJoin =>
    rw [hrule] at h
    exact ofDerivedJoin_masked hreaders h
  | select =>
    rw [hrule] at h
    exact ofSelect_masked hreaders h
  | function => exact absurd hrule hform

/-- The condition of an entry that calls a function has no operand. -/
theorem masked_of_callsFunction {text : String} (hcalls : Key.callsFunction text = true)
    (h : ofEntry m text value readers = .ok c) : c.masked = c := by
  rcases ofEntry_eq_ok_iff.1 h with ⟨key, rule, hkey, hrule, h⟩
  rcases Rule.mem_of_find? hrule with ⟨htable, hoperator, _⟩
  simp only [Key.callsFunction, hkey, Bool.and_eq_true, beq_iff_eq] at hcalls
  -- the rule of the functions is the only one of their operator
  have hform : rule.form = .function :=
    (Rule.form_function_iff rule htable).2 (hoperator.trans hcalls.1)
  simp only [ofRule, hform] at h
  exact masked_of_ofFunction h

/-- Any other entry can be read masked. -/
theorem ofEntry_masked {text : String} (hfree : Key.callsFunction text = false)
    (hreaders : List.Forall₂ ReadsMasked readers readers')
    (h : ofEntry m text value readers = .ok c) :
    ofEntry m text value.masked readers' = .ok c.masked := by
  rcases ofEntry_eq_ok_iff.1 h with ⟨key, rule, hkey, hrule, h⟩
  rcases Rule.mem_of_find? hrule with ⟨htable, hoperator, hfunction⟩
  have hnames : key.operator = ":" → ∀ f ∈ FunctionName.all,
      f.text ≠ key.columns.head?.getD "" := by
    intro hcolon f hf hname
    have hcalls : Key.callsFunction text = true := by
      simp only [Key.callsFunction, hkey, Bool.and_eq_true, beq_iff_eq, List.any_eq_true]
      exact ⟨hcolon, f, hf, hname⟩
    rw [hfree] at hcalls
    cases hcalls
  -- a rule of the functions would call one
  have hform : rule.form ≠ .function := by
    intro hform
    rcases hfunction hform with ⟨f, hf, hname⟩
    exact hnames (hoperator.symm.trans ((Rule.form_function_iff rule htable).1 hform)) f hf hname
  refine ofEntry_eq_ok_iff.2 ⟨key, rule, hkey, ?_, ofRule_masked hform hreaders h⟩
  rw [Rule.find?_masked hnames, hrule]

/-! ## Documents -/

theorem readsMasked_nil : ReadsMasked (s := s) (fun _ => .ok []) fun _ => .ok [] := by
  intro model conditions h
  cases h
  rfl

theorem readsMasked_error (e : Model s → Error) (read' : DocumentReader s) :
    ReadsMasked (fun model => .error (e model)) read' := by
  intro model conditions h
  cases h

theorem ReadsMasked.mapError {read read' : DocumentReader s} (h : ReadsMasked read read')
    (e e' : Model s → Error → Error) :
    ReadsMasked (fun model => (read model).mapError (e model))
      fun model => (read' model).mapError (e' model) := by
  intro model conditions hread
  exact mapError_eq_ok_iff.2 (h model conditions (mapError_eq_ok_iff.1 hread))

/-- A nested document that is no object is read masked as it is. -/
theorem readsMasked_nested {document : Json}
    (hobject : ∀ inner, document = .object inner →
      ReadsMasked (s := s) (ofFields inner) (ofFields (Json.maskedFields inner))) :
    ReadsMasked (s := s) (nested document) (nested document.masked) := by
  cases document with
  | object inner =>
    rw [Json.masked]
    exact (hobject inner rfl).mapError _ _
  | null => exact readsMasked_nil
  | _ => exact readsMasked_error _ _

/-- The entries of a document are read masked one by one. -/
theorem ofFields_masked (fields : List (String × Json)) :
    ReadsMasked (s := s) (ofFields fields) (ofFields (Json.maskedFields fields)) := by
  induction fields using fields_induction with
  | nil =>
    rw [Json.maskedFields]
    exact readsMasked_nil
  | cons key value fields hinner ih =>
    intro model conditions h
    rw [ofFields_cons, bind_eq_ok_iff] at h
    rcases h with ⟨first, hfirst, h⟩
    rw [bind_eq_ok_iff] at h
    rcases h with ⟨rest, hrest, h⟩
    rw [pure_eq_ok_iff] at h
    subst h
    have hreaders : List.Forall₂ (ReadsMasked (s := s)) (readersOf value) (readersOf value.masked) := by
      rw [readersOf_eq_map, readersOf_eq_map, items_masked, List.forall₂_map_left_iff,
        List.forall₂_map_right_iff, List.forall₂_map_right_iff, List.forall₂_same]
      exact fun document hdocument => readsMasked_nested fun inner hobject =>
        hinner inner (hobject ▸ hdocument)
    -- what stands under a function is the same; any other value is masked
    have hfirst' : ofEntry model key (if Key.callsFunction key then value else value.masked)
        (readersOf (if Key.callsFunction key then value else value.masked)) = .ok first.masked := by
      by_cases hcalls : Key.callsFunction key = true
      · rw [if_pos hcalls, masked_of_callsFunction hcalls hfirst, hfirst]
      · rw [if_neg hcalls]
        exact ofEntry_masked (Bool.eq_false_of_not_eq_true hcalls) hreaders hfirst
    rw [Json.maskedFields, ofFields_cons, maskedEach]
    exact bind_eq_ok_iff.2 ⟨_, hfirst', bind_eq_ok_iff.2 ⟨_, ih model rest hrest, rfl⟩⟩

/-- A document that can be read can be read masked. -/
theorem ofDocument_masked {query : Json} {conditions : List (Condition s)}
    (h : ofDocument query m = .ok conditions) :
    ofDocument query.masked m = .ok (maskedEach conditions) := by
  cases query with
  | object fields =>
    rw [Json.masked, ofDocument]
    exact ofFields_masked fields m conditions h
  | null =>
    cases h
    rfl
  | _ => cases h

end Condition

end DocQuery
