import DocQuery.Proofs.Document.Rules
import DocQuery.Proofs.Failure.Chain
import DocQuery.Proofs.Failure.Kinds

namespace DocQuery

/-! # The documents that an entry opens

An entry with nested documents opens them in order: column by column, and the documents of its value
for each. A column that cannot be followed ends this. An entry fails either as the first of the
documents that it opens does, or, when all of them can be read, with an error of its own.

* `readsAll_openedOver`: documents that are read below columns one after the other are opened in
  that order.
* `readsAll_ofEntry`: an entry fails as the first document that it opens, or with an error of its
  own.
-/

variable {s : Schema} {α β : Type}

/-! ## Errors of their own -/

/-- If there is an error, it is not that of a nested document. -/
def Unwrapped (x : Except Error α) : Prop := ∀ e, x = .error e → e.wrappers = []

/-- An error without wrappers is not wrapped. -/
theorem unwrapped_error {e : Error} (h : e.wrappers = []) :
    Unwrapped (.error e : Except Error α) := by
  intro e' he
  cases he
  exact h

/-- The errors of the parts of an entry are not those of nested documents. -/
theorem FailsOnly.unwrapped {x : Except Error α} (h : FailsOnly Error.ownKinds x) : Unwrapped x := by
  intro e he
  have hkind := h e he
  cases e with
  | nested => exact absurd hkind (by simp [Error.kind, Error.ownKinds])
  | _ => rfl

/-! ## Documents in order -/

namespace Column

/-- The model on which documents about the rows of the column are read. -/
def joinOpens? (c : Column s) : Option (Model s) :=
  if c.isProtected then none else c.relationTarget?

/-- The model on which a sub-query over the column, and the conditions on its row, are read. -/
def derivedOpens? (c : Column s) : Option (Model s) :=
  match Condition.directRelation c with
  | .ok relation => if c.isProtected then none else some relation.target
  | .error _ => none

/-- The model on which a document about the included rows is read. -/
def selectOpens? (c : Column s) : Option (Model s) :=
  if c.isColumn || c.isProtected then none else c.relation?.map Relation.target

end Column

namespace Condition

variable {δ ε : Type}

/-- The documents opened for columns in their order, each with the model that it is read on. The
first column that opens nothing ends this. -/
def openedOver (opens? : Column s → Option (Model s)) (documents : List δ) :
    List (Column s) → List (δ × Model s)
  | [] => []
  | c :: columns =>
    match opens? c with
    | some target => documents.map (·, target) ++ openedOver opens? documents columns
    | none => []

/-- The documents that a form of condition opens. -/
def openedBy (form : Form) (columns : List (Column s)) (value : Json) (documents : List δ) :
    List (δ × Model s) :=
  match form with
  | .relationJoin => openedOver Column.joinOpens? documents columns
  | .derivedJoin =>
    if columns.length = 1 then openedOver Column.derivedOpens? (documents.take 2) columns else []
  | .select =>
    openedOver Column.selectOpens? (if hasEntries value then documents.take 1 else []) columns
  | _ => []

/-- The documents that an entry opens, in order, each with the model that it is read on. -/
def opened (m : Model s) (text : String) (value : Json) (documents : List δ) : List (δ × Model s) :=
  match Key.parse text with
  | none => []
  | some key =>
    match Rule.find? key.operator (key.columns.head?.getD "") value with
    | none => []
    | some rule => openedBy rule.form (key.columns.map (Column.ofText m)) value documents

/-- What is opened does not depend on what the documents are. -/
theorem openedOver_map (opens? : Column s → Option (Model s)) (f : δ → ε) (documents : List δ)
    (columns : List (Column s)) : openedOver opens? (documents.map f) columns
      = (openedOver opens? documents columns).map fun o => (f o.1, o.2) := by
  induction columns with
  | nil => rfl
  | cons c columns ih =>
    rw [openedOver, openedOver]
    cases opens? c with
    | none => rfl
    | some target => simp only [ih, List.map_append, List.map_map, Function.comp_def]

/-- Which documents are opened does not depend on what stands for them. -/
theorem opened_map (m : Model s) (text : String) (value : Json) (f : δ → ε) (documents : List δ) :
    opened m text value (documents.map f)
      = (opened m text value documents).map fun o => (f o.1, o.2) := by
  unfold opened
  cases Key.parse text with
  | none => rfl
  | some key =>
    dsimp only
    cases Rule.find? key.operator (key.columns.head?.getD "") value with
    | none => rfl
    | some rule =>
      dsimp only
      unfold openedBy
      -- only the forms with documents open any
      cases rule.form with
      | relationJoin => exact openedOver_map _ f documents _
      | derivedJoin =>
        dsimp only
        split
        · rw [← List.map_take, openedOver_map]
        · rfl
      | select =>
        dsimp only
        split
        · rw [← List.map_take, openedOver_map]
        · exact openedOver_map _ f [] _
      | _ => rfl

/-- Without documents nothing is opened. -/
theorem openedOver_nil (opens? : Column s → Option (Model s)) (columns : List (Column s)) :
    openedOver opens? ([] : List δ) columns = [] := by
  induction columns with
  | nil => rfl
  | cons c columns ih =>
    rw [openedOver]
    cases opens? c with
    | none => rfl
    | some target => exact ih

/-- What is opened is one of the documents. -/
theorem mem_of_mem_openedOver {opens? : Column s → Option (Model s)} {documents : List δ}
    {columns : List (Column s)} {o : δ × Model s} (h : o ∈ openedOver opens? documents columns) :
    o.1 ∈ documents := by
  induction columns with
  | nil => cases h
  | cons c columns ih =>
    rw [openedOver] at h
    cases hopens : opens? c with
    | none =>
      rw [hopens] at h
      cases h
    | some target =>
      rw [hopens] at h
      rcases List.mem_append.1 h with hfirst | hrest
      · rcases List.mem_map.1 hfirst with ⟨document, hdocument, rfl⟩
        exact hdocument
      · exact ih hrest

/-- The shapes of the values in which documents are opened. -/
theorem shapes_of_form : ∀ rule ∈ Rule.table,
    (rule.form = .relationJoin → rule.shapes = [.object, .objectList]) ∧
      (rule.form = .derivedJoin → rule.shapes = [.subQuery]) := by
  decide

/-- Values of these shapes are made of objects. -/
theorem items_isObject {shape : Shape} {value : Json}
    (hshape : shape ∈ [Shape.object, .objectList, .subQuery]) (haccepts : shape.accepts value) :
    ∀ document ∈ items value, document.isObject = true := by
  intro document hdocument
  simp only [List.mem_cons, List.not_mem_nil, or_false] at hshape
  rcases hshape with rfl | rfl | rfl
  · cases value <;> simp_all [Shape.accepts, items, Json.isObject]
  · cases value <;> simp_all [Shape.accepts, items, Json.isObject]
  · cases value <;> simp_all [Shape.accepts, items, Json.isObject]

/-- Only objects are opened. -/
theorem isObject_of_opened {m : Model s} {text : String} {value : Json} {o : Json × Model s}
    (h : o ∈ opened m text value (items value)) : o.1.isObject = true := by
  unfold opened at h
  split at h
  · cases h
  · rename_i key _
    split at h
    · cases h
    · rename_i rule hrule
      have haccepts := List.find?_some hrule
      rw [Bool.and_eq_true, Rule.accepts, Bool.and_eq_true] at haccepts
      rcases List.any_eq_true.1 haccepts.1.2 with ⟨shape, hshape, hvalue⟩
      rcases shapes_of_form rule (Rule.mem_of_find? hrule).1 with ⟨hjoin, hderived⟩
      -- the shapes of the row say which values are documents: all items of a list, both of a pair
      unfold openedBy at h
      split at h
      · rename_i hform
        rw [hjoin hform] at hshape
        refine items_isObject ?_ hvalue _ (mem_of_mem_openedOver h)
        grind
      · rename_i hform
        rw [hderived hform] at hshape
        split at h
        · refine items_isObject ?_ hvalue _ (List.mem_of_mem_take (mem_of_mem_openedOver h))
          grind
        · cases h
      · have hmem := mem_of_mem_openedOver h
        cases value with
        | object fields =>
          split at hmem
          · have hsame : o.1 = .object fields := List.mem_singleton.1 hmem
            rw [hsame]
            rfl
          · cases hmem
        | _ => cases hmem
      · cases h

/-! ## Reading what is opened -/

/-- Reads documents in order, up to the first failure. -/
def readAll (documents : List (DocumentReader s × Model s)) :
    Except Error (List (List (Condition s))) :=
  documents.mapM fun o => o.1 o.2

/-- How a result comes about from the documents that are opened on the way. -/
inductive ReadsAll (documents : List (DocumentReader s × Model s)) : Except Error α → Prop where
  | done {nested : List (List (Condition s))} (read : readAll documents = .ok nested) (a : α) :
      ReadsAll documents (.ok a)
  /-- The failure is that of the first document that cannot be read. -/
  | inside {e : Error} (failed : readAll documents = .error e) : ReadsAll documents (.error e)
  /-- All documents can be read, and the failure is not that of a document. -/
  | itself {nested : List (List (Condition s))} {e : Error} (read : readAll documents = .ok nested)
      (own : e.wrappers = []) : ReadsAll documents (.error e)

theorem readAll_nil : readAll (s := s) [] = .ok [] := rfl

/-- An entry that opens nothing has errors of its own only. -/
theorem readsAll_nil {x : Except Error α} (h : Unwrapped x) : ReadsAll (s := s) [] x := by
  cases x with
  | ok a => exact .done readAll_nil a
  | error e => exact .itself readAll_nil (h e rfl)

/-- Documents are read in order, so the first that fails decides. -/
theorem readAll_append (first rest : List (DocumentReader s × Model s)) :
    readAll (first ++ rest) = (do return (← readAll first) ++ (← readAll rest)) :=
  List.mapM_append

/-- One document is read by itself. -/
theorem readAll_singleton (read : DocumentReader s) (target : Model s) :
    readAll [(read, target)] = (read target).map ([·]) := by
  rw [readAll, List.mapM_cons, List.mapM_nil]
  dsimp only
  cases read target <;> rfl

/-- If every column that can be followed reads the documents, and every other fails, then the
columns read the documents that they open. -/
theorem readsAll_openedOver {opens? : Column s → Option (Model s)} {readers : List (DocumentReader s)}
    {read : Column s → Except Error β}
    (hnone : ∀ c, opens? c = none → ∃ e, read c = .error e ∧ e.wrappers = [])
    (hsome : ∀ c target, opens? c = some target →
      ∃ make, read c = (readAll (readers.map (·, target))).map make) (columns : List (Column s)) :
    ReadsAll (openedOver opens? readers columns) (columns.mapM read) := by
  induction columns with
  | nil => exact .done readAll_nil []
  | cons c columns ih =>
    rw [openedOver, List.mapM_cons]
    cases hopens : opens? c with
    -- a column that is not followed ends the reading, and opens nothing more
    | none =>
      rcases hnone c hopens with ⟨e, hread, hown⟩
      rw [hread]
      exact .itself readAll_nil hown
    -- the documents below this column come before those below the next
    | some target =>
      rcases hsome c target hopens with ⟨make, hread⟩
      rw [hread]
      -- the reading ends here, or goes on with the other columns
      cases hfirst : readAll (readers.map (·, target)) with
      | error e =>
        refine .inside ?_
        rw [readAll_append, hfirst]
        rfl
      | ok nested =>
        have happend : ∀ {x}, readAll (openedOver opens? readers columns) = x →
            readAll (readers.map (·, target) ++ openedOver opens? readers columns)
              = x.map (nested ++ ·) := by
          rintro x rfl
          rw [readAll_append, hfirst]
          cases readAll (openedOver opens? readers columns) <;> rfl
        generalize columns.mapM read = rest at ih
        cases ih with
        | done hrest b => exact .done (happend hrest) _
        | inside hfailed => exact .inside (happend hfailed)
        | itself hrest hown => exact .itself (happend hrest) hown

/-! ## The rules -/

section Rules

variable {m : Model s} {columns : List (Column s)} {value : Json} {readers : List (DocumentReader s)}

/-- A result is made of another, which stands to the documents in the same way. -/
theorem ReadsAll.map {documents : List (DocumentReader s × Model s)} {x : Except Error α}
    (h : ReadsAll documents x) (f : α → β) : ReadsAll documents (do return f (← x)) := by
  cases h with
  | done hread a => exact .done hread _
  | inside hfailed => exact .inside hfailed
  | itself hread hown => exact .itself hread hown

theorem checkAllowed_of_protected {c : Column s} (h : c.isProtected = true) :
    c.checkAllowed = .error (.protectedColumn c.model.name c.text) := if_pos h

theorem checkAllowed_of_not_protected {c : Column s} (h : ¬c.isProtected = true) :
    c.checkAllowed = .ok () := if_neg h

/-- A relation join opens all its documents below each of its columns. -/
theorem readsAll_ofRelationJoin :
    ReadsAll (openedOver Column.joinOpens? readers columns) (ofRelationJoin columns readers) := by
  refine (readsAll_openedOver (fun c hopens => ?_) (fun c target hopens => ?_) columns).map _
  · unfold Column.joinOpens? at hopens
    unfold joinTarget
    split at hopens
    · rename_i hprotected
      split
      · exact ⟨_, rfl, rfl⟩
      · rw [checkAllowed_of_protected hprotected]
        exact ⟨_, rfl, rfl⟩
    · rw [hopens]
      exact ⟨_, rfl, rfl⟩
  · unfold Column.joinOpens? at hopens
    split at hopens
    · cases hopens
    · rename_i hallowed
      refine ⟨fun documents => ⟨c, documents⟩, ?_⟩
      unfold joinTarget
      rw [hopens]
      dsimp only
      rw [checkAllowed_of_not_protected hallowed, readAll, List.mapM_map]
      rfl

/-- Two documents that may be missing are those that are there. -/
theorem readOptional_both (target : Model s) (make : List (Condition s) → List (Condition s) → β) :
    ∃ makeOf, (do
      let first ← readOptional readers[0]? target
      let second ← readOptional readers[1]? target
      return make first second)
        = (readAll ((readers.take 2).map (·, target))).map makeOf := by
  refine ⟨fun documents => make (documents[0]?.getD []) (documents[1]?.getD []), ?_⟩
  -- there are no documents, one, or at least two
  match readers with
  | [] => rfl
  | [first] =>
    simp only [readAll, readOptional, List.take, List.map, List.mapM_cons, List.mapM_nil,
      List.getElem?_cons_zero, List.getElem?_cons_succ, List.getElem?_nil]
    cases first target <;> rfl
  | first :: second :: _ =>
    simp only [readAll, readOptional, List.take, List.map, List.mapM_cons, List.mapM_nil,
      List.getElem?_cons_zero, List.getElem?_cons_succ]
    cases first target with
    | error e => rfl
    | ok a => cases second target <;> rfl

/-- A sub-query cannot be read over a column that opens nothing. -/
theorem ofDerivedJoin_of_none (readers : List (DocumentReader s)) {column : Column s}
    (h : column.derivedOpens? = none) :
    ∃ e, ofDerivedJoin [column] readers = .error e ∧ e.wrappers = [] := by
  unfold Column.derivedOpens? at h
  dsimp only [ofDerivedJoin]
  cases hrelation : directRelation column with
  | error e => exact ⟨e, rfl, (failsOnly_directRelation column).unwrapped e hrelation⟩
  | ok relation =>
    by_cases hprotected : column.isProtected = true
    · rw [checkAllowed_of_protected hprotected]
      exact ⟨_, rfl, rfl⟩
    · simp [hrelation, hprotected] at h

/-- A derived table over a relation that can be followed fails as one of its two documents does. -/
theorem ofDerivedJoin_of_some (readers : List (DocumentReader s)) {column : Column s}
    {target : Model s} (h : column.derivedOpens? = some target) : ∃ make, ofDerivedJoin [column] readers
      = (readAll ((readers.take 2).map (·, target))).map make := by
  unfold Column.derivedOpens? at h
  dsimp only [ofDerivedJoin]
  cases hrelation : directRelation column with
  | error e =>
    rw [hrelation] at h
    cases h
  | ok relation =>
    by_cases hprotected : column.isProtected = true
    · simp [hrelation, hprotected] at h
    · have htarget : relation.target = target := by simpa [hrelation, hprotected] using h
      rw [checkAllowed_of_not_protected hprotected, ← htarget]
      exact readOptional_both relation.target (Condition.derivedJoin column relation)

/-- A derived table opens up to two documents, below its only column. -/
theorem readsAll_ofDerivedJoin : ReadsAll
    (if columns.length = 1 then openedOver Column.derivedOpens? (readers.take 2) columns else [])
      (ofDerivedJoin columns readers) := by
  -- no column and more than one are refused before anything is opened
  rcases columns with _ | ⟨column, _ | ⟨second, columns⟩⟩
  · exact readsAll_nil (unwrapped_error rfl)
  · rw [List.length_singleton, if_pos rfl, openedOver, openedOver]
    cases hopens : column.derivedOpens? with
    | none =>
      rcases ofDerivedJoin_of_none readers hopens with ⟨e, hread, hown⟩
      rw [hread]
      exact readsAll_nil (unwrapped_error hown)
    | some target =>
      rcases ofDerivedJoin_of_some readers hopens with ⟨make, hread⟩
      rw [hread]
      dsimp only
      rw [List.append_nil]
      cases hall : readAll ((readers.take 2).map (·, target)) with
      | error e => exact .inside hall
      | ok nested => exact .done hall _
  · rw [if_neg (by simp)]
    exact readsAll_nil (unwrapped_error rfl)

/-- A selection with a document opens it below each of its columns. -/
theorem readsAll_selectTargets (read : DocumentReader s) :
    ReadsAll (openedOver Column.selectOpens? [read] columns)
      (columns.mapM (selectTarget (some read))) := by
  refine readsAll_openedOver (fun c hopens => ?_) (fun c target hopens => ?_) columns
  · unfold Column.selectOpens? at hopens
    unfold selectTarget
    by_cases hcolumn : c.isColumn = true
    · rw [if_pos hcolumn]
      exact ⟨_, rfl, rfl⟩
    · rw [if_neg hcolumn]
      cases hrelation : c.relation? with
      | none => exact ⟨_, rfl, rfl⟩
      | some relation =>
        by_cases hprotected : c.isProtected = true
        · dsimp only
          rw [checkAllowed_of_protected hprotected]
          exact ⟨_, rfl, rfl⟩
        · simp [hcolumn, hprotected, hrelation] at hopens
  · unfold Column.selectOpens? at hopens
    split at hopens
    · cases hopens
    · rename_i hneither
      rw [Bool.or_eq_true, not_or] at hneither
      rcases Option.map_eq_some_iff.1 hopens with ⟨relation, hrelation, rfl⟩
      refine ⟨fun documents => ⟨c, documents.head?.getD []⟩, ?_⟩
      unfold selectTarget
      rw [if_neg hneither.1, hrelation]
      dsimp only
      rw [checkAllowed_of_not_protected hneither.2, List.map_singleton, readAll_singleton, readOptional]
      cases read relation.target <;> rfl

/-- A selection opens its document if that has entries. -/
theorem readsAll_ofSelect :
    ReadsAll (openedOver Column.selectOpens? (if hasEntries value then readers.take 1 else []) columns)
      (ofSelect columns value readers) := by
  refine ReadsAll.map ?_ _
  have hnone : ReadsAll (openedOver Column.selectOpens? [] columns)
      (columns.mapM (selectTarget none)) := by
    rw [openedOver_nil]
    refine readsAll_nil (failsOnly_mapM fun c _ => ?_).unwrapped
    exact failsOnly_selectTarget (List.Subset.refl _) (fun _ hread => absurd hread (by simp)) c
  split
  · cases readers with
    | nil => exact hnone
    | cons read readers => exact readsAll_selectTargets read
  · exact hnone

/-- A function opens no documents. -/
theorem unwrapped_ofFunction (m : Model s) : Unwrapped (ofFunction m columns value) := by
  by_cases hfound : FunctionName.find? ((columns.head?.map Column.text).getD "") value = none
  · simp only [ofFunction, hfound]
    exact unwrapped_error rfl
  · exact (failsOnly_ofFunction m hfound).unwrapped

/-- An entry fails as the first of the documents that it opens does, or with an error of its own
when all of them can be read. -/
theorem readsAll_ofEntry (text : String) :
    ReadsAll (opened m text value readers) (ofEntry m text value readers) := by
  unfold opened
  rw [ofEntry_eq]
  cases Key.parse text with
  | none => exact readsAll_nil (unwrapped_error rfl)
  | some key =>
    dsimp only
    cases Rule.find? key.operator (key.columns.head?.getD "") value with
    | none => exact readsAll_nil (unwrapped_error rfl)
    | some rule =>
      dsimp only
      unfold openedBy ofRule
      -- each form opens what its reader reads, in the order of the reader
      cases rule.form with
      | comparison template temporal => exact readsAll_nil failsOnly_ofComparison.unwrapped
      | presence template => exact readsAll_nil failsOnly_ofPresence.unwrapped
      | membership template => exact readsAll_nil failsOnly_ofMembership.unwrapped
      | range template => exact readsAll_nil failsOnly_ofRange.unwrapped
      | overlap template => exact readsAll_nil failsOnly_ofOverlap.unwrapped
      | relationJoin => exact readsAll_ofRelationJoin
      | derivedJoin => exact readsAll_ofDerivedJoin
      | select => exact readsAll_ofSelect
      | function => exact readsAll_nil (unwrapped_ofFunction m)

end Rules

end Condition

end DocQuery
