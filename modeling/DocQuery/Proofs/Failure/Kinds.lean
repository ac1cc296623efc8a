import DocQuery.Condition.Document

namespace DocQuery

/-! # Kinds of failures

Once the rule of an entry is known, reading can fail in few ways: a column or a relation is unknown,
a name is protected, a value does not fit, or a nested document fails. Each reader of a part of the
entry has a lemma that says so.

* `failsOnly_mapM`: reading a list of parts fails as one of the parts does.
* `failsOnly_ofComparison`: and its neighbours, one for each form of a rule: which kinds of failure
  it has.
* `failsOnly_nested`: a nested document adds no kind of failure but that of nested documents.
-/

variable {s : Schema} {α β : Type} {kinds : List String}

namespace Error

/-- The kinds of the errors that an entry has of its own once its rule is known. -/
def ownKinds : List String :=
  ["UnknownColumn", "UnknownRelation", "ProtectedColumnAccess", "InvalidValue"]

/-- The kinds of the errors that an entry has once its rule is known, those of its nested documents
included. -/
def contentKinds : List String := "NestedQueryFailure" :: ownKinds

end Error

/-- If there is an error, it is of one of these kinds. -/
def FailsOnly (kinds : List String) (x : Except Error α) : Prop := ∀ e, x = .error e → e.kind ∈ kinds

/-- What does not fail fails in no way. -/
theorem failsOnly_ok (a : α) : FailsOnly kinds (.ok a) := by
  intro e h
  cases h

theorem failsOnly_error {e : Error} (h : e.kind ∈ kinds) :
    FailsOnly kinds (.error e : Except Error α) := by
  intro e' he
  cases he
  exact h

/-- More kinds may be allowed for. -/
theorem FailsOnly.mono {more : List String} {x : Except Error α} (h : FailsOnly kinds x)
    (hsubset : kinds ⊆ more) : FailsOnly more x := fun e he => hsubset (h e he)

/-- A compound reader fails as one of its parts. -/
theorem FailsOnly.bind {x : Except Error α} {f : α → Except Error β} (hx : FailsOnly kinds x)
    (hf : ∀ a, FailsOnly kinds (f a)) : FailsOnly kinds (x >>= f) := by
  cases x with
  | error e => exact failsOnly_error (hx e rfl)
  | ok a => exact hf a

/-- Reading a list fails as reading one of its items. -/
theorem failsOnly_mapM {f : α → Except Error β} {as : List α}
    (hf : ∀ a ∈ as, FailsOnly kinds (f a)) : FailsOnly kinds (as.mapM f) := by
  -- By induction on the list: the first item that fails decides.
  induction as with
  | nil => exact failsOnly_ok []
  | cons a as ih =>
    rw [List.mapM_cons]
    rw [List.forall_mem_cons] at hf
    exact hf.1.bind fun _ => (ih hf.2).bind fun _ => failsOnly_ok _

open Error

/-! ## Columns and values -/

namespace Column

/-- A column that queries may not reach is refused as protected. -/
theorem failsOnly_checkAllowed (c : Column s) : FailsOnly ownKinds c.checkAllowed := by
  unfold checkAllowed
  split
  · exact failsOnly_error (by decide : "ProtectedColumnAccess" ∈ ownKinds)
  · exact failsOnly_ok ()

/-- A column is refused because it does not exist or because queries may not reach it. -/
theorem failsOnly_check (c : Column s) : FailsOnly ownKinds c.check := by
  unfold check
  split
  · exact c.failsOnly_checkAllowed
  · exact failsOnly_error (by decide : "UnknownColumn" ∈ ownKinds)

/-- Columns are checked one after the other. -/
theorem failsOnly_checkAll (columns : List (Column s)) : FailsOnly ownKinds (checkAll columns) := by
  induction columns with
  | nil => exact failsOnly_ok ()
  | cons c columns ih => exact c.failsOnly_check.bind fun _ => ih

end Column

/-- A value that does not fit. -/
theorem failsOnly_invalidValue (column : String) (fault : ValueFault) :
    FailsOnly ownKinds (.error (.invalidValue column fault) : Except Error α) :=
  failsOnly_error (by decide : "InvalidValue" ∈ ownKinds)

/-- A value that cannot be bound is an invalid value. -/
theorem Operand.failsOnly_bind (label : String) (value : Json) (chronological : Bool) :
    FailsOnly ownKinds (Operand.bind label value chronological) := by
  unfold Operand.bind
  split
  · split
    · exact failsOnly_ok _
    · exact failsOnly_invalidValue _ _
  · split
    · exact failsOnly_ok _
    · exact failsOnly_invalidValue _ _

namespace TimeSpan

/-- A text that is no instant is an invalid value. -/
theorem failsOnly_readInstant (label text : String) :
    FailsOnly ownKinds (readInstant label text) := by
  unfold readInstant
  split
  · exact failsOnly_ok _
  · exact failsOnly_invalidValue _ _

/-- A range that is not written as two instants is an invalid value. -/
theorem failsOnly_read (label : String) (items : List Json) :
    FailsOnly ownKinds (read label items) := by
  unfold read
  dsimp only
  split
  · refine (failsOnly_readInstant label _).bind fun start => ?_
    split
    · exact (failsOnly_readInstant label _).bind fun _ => failsOnly_ok _
    · split
      · exact failsOnly_ok _
      · exact failsOnly_invalidValue _ _
    · exact failsOnly_invalidValue _ _
  · exact failsOnly_invalidValue _ _

end TimeSpan

namespace OrderEntry

/-- An entry of an order that is not a name or a pair of a name and a direction is an invalid value. -/
theorem failsOnly_ofItem (item : Json) : FailsOnly ownKinds (ofItem item) := by
  unfold ofItem
  split
  · exact failsOnly_ok _
  · exact failsOnly_ok _
  · exact failsOnly_ok _
  · exact failsOnly_invalidValue _ _

/-- A direction that is not known is an invalid value. -/
theorem failsOnly_ofField (field : String × Json) : FailsOnly ownKinds (ofField field) := by
  unfold ofField
  split
  · exact failsOnly_ok _
  · exact failsOnly_ok _
  · exact failsOnly_invalidValue _ _

/-- An order that is not written in one of its spellings is an invalid value. -/
theorem failsOnly_ofJson (value : Json) : FailsOnly ownKinds (ofJson value) := by
  unfold ofJson
  split
  · exact failsOnly_ok _
  · exact failsOnly_ok _
  · exact failsOnly_mapM fun item _ => failsOnly_ofItem item
  · exact failsOnly_mapM fun field _ => failsOnly_ofField field
  · exact failsOnly_invalidValue _ _

theorem failsOnly_resolve (m : Model s) (written : Written) :
    FailsOnly ownKinds (resolve m written) :=
  (Column.failsOnly_check _).bind fun _ => failsOnly_ok _

end OrderEntry

/-! ## Forms of conditions -/

namespace Condition

section Tests

variable {rule template : String} {temporal : Bool} {columns : List (Column s)} {value : Json}

/-- An empty list of values is an invalid value. -/
theorem failsOnly_checkNonempty (label : String) (values : List Json) :
    FailsOnly ownKinds (checkNonempty label values) := by
  unfold checkNonempty
  split
  · exact failsOnly_invalidValue _ _
  · exact failsOnly_ok ()

/-- A comparison fails over its columns or its value. -/
theorem failsOnly_ofComparison :
    FailsOnly ownKinds (ofComparison rule template temporal columns value) :=
  (Column.failsOnly_checkAll columns).bind fun _ => (failsOnly_checkNonempty _ _).bind fun _ =>
    (failsOnly_mapM fun v _ => Operand.failsOnly_bind _ v _).bind fun _ => failsOnly_ok _

theorem failsOnly_ofPresence : FailsOnly ownKinds (ofPresence rule template columns) :=
  (Column.failsOnly_checkAll columns).bind fun _ => failsOnly_ok _

/-- A membership test fails over its columns or one of its values. -/
theorem failsOnly_ofMembership : FailsOnly ownKinds (ofMembership rule template columns value) :=
  (Column.failsOnly_checkAll columns).bind fun _ => (failsOnly_checkNonempty _ _).bind fun _ =>
    (Operand.failsOnly_bind _ value false).bind fun _ => failsOnly_ok _

/-- A range fails over its columns or one of its ends. -/
theorem failsOnly_ofRange : FailsOnly ownKinds (ofRange rule template columns value) := by
  refine (Column.failsOnly_checkAll columns).bind fun _ => ?_
  split
  · exact (Operand.failsOnly_bind _ _ _).bind fun _ =>
      (Operand.failsOnly_bind _ _ _).bind fun _ => failsOnly_ok _
  · exact failsOnly_invalidValue _ _

/-- An overlap fails over its columns or its span. -/
theorem failsOnly_ofOverlap : FailsOnly ownKinds (ofOverlap rule template columns value) := by
  refine (Column.failsOnly_checkAll columns).bind fun _ => ?_
  split
  · exact failsOnly_invalidValue _ _
  · exact (TimeSpan.failsOnly_read _ _).bind fun _ => failsOnly_ok _

/-- A function that is found a second time fails on its value or its columns only. -/
theorem failsOnly_ofFunction (m : Model s)
    (h : FunctionName.find? ((columns.head?.map Column.text).getD "") value ≠ none) :
    FailsOnly ownKinds (ofFunction m columns value) := by
  unfold ofFunction
  dsimp only
  split
  · exact (OrderEntry.failsOnly_ofJson value).bind fun _ =>
      (failsOnly_mapM fun _ _ => OrderEntry.failsOnly_resolve m _).bind fun _ => failsOnly_ok _
  · exact failsOnly_ok _
  · exact failsOnly_ok _
  · rename_i hnone
    exact absurd hnone h

end Tests

section Documents

variable {columns : List (Column s)} {value : Json} {readers : List (DocumentReader s)}

/-- A target of a relation join fails over its column or in one of its documents. -/
theorem failsOnly_joinTarget (hown : ownKinds ⊆ kinds)
    (hreaders : ∀ read ∈ readers, ∀ n, FailsOnly kinds (read n)) (column : Column s) :
    FailsOnly kinds (joinTarget readers column) := by
  unfold joinTarget
  split
  · exact failsOnly_error (hown (by decide : "UnknownRelation" ∈ ownKinds))
  · exact (column.failsOnly_checkAllowed.mono hown).bind fun _ =>
      (failsOnly_mapM fun read hread => hreaders read hread _).bind fun _ => failsOnly_ok _

/-- A derived table needs a relation that is joined without an intermediate one. -/
theorem failsOnly_directRelation (column : Column s) :
    FailsOnly ownKinds (directRelation column) := by
  unfold directRelation
  split
  · exact failsOnly_ok _
  · exact failsOnly_error (by decide : "UnknownRelation" ∈ ownKinds)

/-- A document that may be missing fails only if it is there. -/
theorem failsOnly_readOptional {document : Option (DocumentReader s)}
    (hdocument : ∀ read ∈ document, ∀ n, FailsOnly kinds (read n)) (n : Model s) :
    FailsOnly kinds (readOptional document n) := by
  cases document with
  | none => exact failsOnly_ok []
  | some read => exact hdocument read rfl n

/-- A derived table fails over its relation or in one of its two documents. -/
theorem failsOnly_ofDerivedJoin (hown : ownKinds ⊆ kinds)
    (hreaders : ∀ read ∈ readers, ∀ n, FailsOnly kinds (read n)) :
    FailsOnly kinds (ofDerivedJoin columns readers) := by
  have hoptional : ∀ (i : Nat) n, FailsOnly kinds (readOptional readers[i]? n) := fun i n =>
    failsOnly_readOptional (fun read hread => hreaders read (List.mem_of_getElem? hread)) n
  unfold ofDerivedJoin
  split
  · exact ((failsOnly_directRelation _).mono hown).bind fun relation =>
      ((Column.failsOnly_checkAllowed _).mono hown).bind fun _ =>
        (hoptional 0 relation.target).bind fun _ =>
          (hoptional 1 relation.target).bind fun _ => failsOnly_ok _
  · exact (failsOnly_invalidValue _ _).mono hown

/-- A target of a selection fails over its column or in its document. -/
theorem failsOnly_selectTarget (hown : ownKinds ⊆ kinds) {document : Option (DocumentReader s)}
    (hdocument : ∀ read ∈ document, ∀ n, FailsOnly kinds (read n)) (column : Column s) :
    FailsOnly kinds (selectTarget document column) := by
  have hallowed : FailsOnly kinds column.checkAllowed := column.failsOnly_checkAllowed.mono hown
  unfold selectTarget
  split
  · split
    · exact (failsOnly_invalidValue _ _).mono hown
    · exact hallowed.bind fun _ => failsOnly_ok _
  · split
    · exact failsOnly_error (hown (by decide : "UnknownColumn" ∈ ownKinds))
    · exact hallowed.bind fun _ => (failsOnly_readOptional hdocument _).bind fun _ => failsOnly_ok _

/-- A selection fails over one of its targets. -/
theorem failsOnly_ofSelect (hown : ownKinds ⊆ kinds)
    (hreaders : ∀ read ∈ readers, ∀ n, FailsOnly kinds (read n)) :
    FailsOnly kinds (ofSelect columns value readers) := by
  refine (failsOnly_mapM fun column _ => failsOnly_selectTarget hown ?_ column).bind fun _ =>
    failsOnly_ok _
  intro read hread
  split at hread
  · exact hreaders read (List.mem_of_head? hread)
  · cases hread

/-- A nested document fails as such. -/
theorem failsOnly_nested (document : Json) (n : Model s) :
    FailsOnly contentKinds (nested document n) := by
  rw [nested_eq]
  cases ofDocument document n with
  | error e => exact failsOnly_error (by decide : "NestedQueryFailure" ∈ contentKinds)
  | ok conditions => exact failsOnly_ok conditions

/-- A nested document wraps whatever fails in it, so its failure is of one kind. -/
theorem failsOnly_of_mem_readersOf {read : DocumentReader s} (h : read ∈ readersOf value)
    (n : Model s) : FailsOnly contentKinds (read n) := by
  rw [readersOf_eq_map] at h
  rcases List.mem_map.1 h with ⟨document, _, rfl⟩
  exact failsOnly_nested document n

end Documents

end Condition

end DocQuery
