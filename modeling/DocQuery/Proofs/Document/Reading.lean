import Mathlib.Data.List.Forall2
import DocQuery.Condition.Document

namespace DocQuery

/-! # Induction over query documents

Reading a document recurses over its JSON value: an entry is read with the readers of the documents
in its value. `ofDocument_gives` does this recursion once for all properties of conditions.

* `fields_induction`: induction over the entries of a document and of the documents in their values.
* `ofDocument_gives`: what each entry gives whose documents give it, every document gives.
* `Nests.ofRelationJoin`: and its neighbours: which documents a condition with documents holds.
-/

/-! ## Related lists -/

/-- Related lists have related members at each place. -/
theorem rel_getElem? {α β : Type} {R : α → β → Prop} {xs : List α} {ys : List β}
    (h : List.Forall₂ R xs ys) (i : Nat) : Option.Rel R xs[i]? ys[i]? := by
  induction h generalizing i with
  | nil => exact .none
  | cons hfirst _ ih =>
    cases i with
    | zero => exact .some hfirst
    | succ i =>
      rw [List.getElem?_cons_succ, List.getElem?_cons_succ]
      exact ih i

/-- Where each result has a counterpart, there is a list of counterparts. -/
theorem exists_forall₂ {α α' β β' : Type} {R : α → β → Prop} {R' : α' → β' → Prop}
    {S : β → β' → Prop} {xs : List α} {xs' : List α'} {ys : List β}
    (h : List.Forall₂ (fun x x' => ∀ y, R x y → ∃ y', R' x' y' ∧ S y y') xs xs')
    (hys : List.Forall₂ R xs ys) : ∃ ys', List.Forall₂ R' xs' ys' ∧ List.Forall₂ S ys ys' := by
  induction h generalizing ys with
  | nil =>
    cases hys
    exact ⟨[], .nil, .nil⟩
  | cons hfirst _ ih =>
    cases hys with
    | cons hy hrest =>
      rcases hfirst _ hy with ⟨y', hy', hsame⟩
      rcases ih hrest with ⟨ys', hys', hsames⟩
      exact ⟨y' :: ys', .cons hy' hys', .cons hsame hsames⟩

/-- Each member of a list is related to a member of the related list. -/
theorem exists_mem_of_forall₂ {α β : Type} {R : α → β → Prop} {xs : List α} {ys : List β} {y : β}
    (h : List.Forall₂ R xs ys) (hy : y ∈ ys) : ∃ x ∈ xs, R x y := by
  induction h with
  | nil => cases hy
  | cons hxy _ ih =>
    rcases List.mem_cons.1 hy with rfl | hy
    · exact ⟨_, List.mem_cons_self, hxy⟩
    · rcases ih hy with ⟨x, hx, hrelated⟩
      exact ⟨x, List.mem_cons_of_mem _ hx, hrelated⟩

/-- Results that are images of others come from a list of these. -/
theorem forall₂_exists_map_iff {α β γ : Type} {R : α → β → Prop} {g : β → γ} {xs : List α}
    {zs : List γ} : List.Forall₂ (fun x z => ∃ y, R x y ∧ z = g y) xs zs ↔
      ∃ ys, List.Forall₂ R xs ys ∧ zs = ys.map g := by
  constructor
  · intro h
    induction h with
    | nil => exact ⟨[], .nil, rfl⟩
    | cons hfirst _ ih =>
      rcases hfirst with ⟨y, hy, rfl⟩
      rcases ih with ⟨ys, hys, rfl⟩
      exact ⟨y :: ys, .cons hy hys, rfl⟩
  · rintro ⟨ys, hys, rfl⟩
    rw [List.forall₂_map_right_iff]
    exact hys.imp fun _ y hy => ⟨y, hy, rfl⟩

/-- Relations that agree on the members relate the same lists. -/
theorem forall₂_congr_mem {α β : Type} {R S : α → β → Prop} {xs : List α} {ys : List β}
    (h : ∀ x ∈ xs, ∀ y, R x y ↔ S x y) : List.Forall₂ R xs ys ↔ List.Forall₂ S xs ys := by
  induction xs generalizing ys with
  | nil => rw [List.forall₂_nil_left_iff, List.forall₂_nil_left_iff]
  | cons x xs ih =>
    have hrest : ∀ {ys}, List.Forall₂ R xs ys ↔ List.Forall₂ S xs ys :=
      ih fun x' hx' => h x' (List.mem_cons_of_mem _ hx')
    simp only [List.forall₂_cons_left_iff, h x List.mem_cons_self, hrest]

/-! ## Results that are there -/

/-- A compound reader succeeds if its parts do, one after the other. -/
theorem bind_eq_ok_iff {ε α β : Type} {x : Except ε α} {f : α → Except ε β} {b : β} :
    x >>= f = .ok b ↔ ∃ a, x = .ok a ∧ f a = .ok b := by
  cases x with
  | error e => simp [bind, Except.bind]
  | ok a => simp [bind, Except.bind]

/-- What is given at once is what is read. -/
theorem pure_eq_ok_iff {ε α : Type} {a b : α} : (pure a : Except ε α) = .ok b ↔ a = b := by
  simp [pure, Except.pure]

/-- Changing the error keeps what is read. -/
theorem mapError_eq_ok_iff {ε ε' α : Type} {f : ε → ε'} {x : Except ε α} {a : α} :
    x.mapError f = .ok a ↔ x = .ok a := by
  cases x with
  | error e =>
    constructor
    · intro h
      cases h
    · intro h
      cases h
  | ok b =>
    constructor
    · intro h
      cases h
      rfl
    · intro h
      cases h
      rfl

/-- What is known of a result that is there holds of the result. -/
theorem exists_of_map_toOption {ε α β : Type} {x : Except ε α} {f : α → β} {b : β}
    (h : x.toOption.map f = some b) : ∃ a, x = .ok a ∧ f a = b := by
  cases x with
  | error e => cases h
  | ok a => exact ⟨a, rfl, Option.some.inj h⟩

/-- A list that is read item by item comes from one result for each item, in order. -/
theorem forall₂_of_mapM {ε α β : Type} {f : α → Except ε β} {xs : List α} {ys : List β}
    (h : xs.mapM f = .ok ys) : List.Forall₂ (fun x y => f x = .ok y) xs ys := by
  induction xs generalizing ys with
  | nil =>
    rw [List.mapM_nil, pure_eq_ok_iff] at h
    subst h
    exact .nil
  | cons x xs ih =>
    rw [List.mapM_cons, bind_eq_ok_iff] at h
    rcases h with ⟨y, hy, h⟩
    rw [bind_eq_ok_iff] at h
    rcases h with ⟨rest, hrest, h⟩
    rw [pure_eq_ok_iff] at h
    subst h
    exact .cons hy (ih hrest)

/-- A list can be read item by item exactly if there is a result for each item. -/
theorem mapM_eq_ok_iff {ε α β : Type} {f : α → Except ε β} {xs : List α} {ys : List β} :
    xs.mapM f = .ok ys ↔ List.Forall₂ (fun x y => f x = .ok y) xs ys := by
  refine ⟨forall₂_of_mapM, fun h => ?_⟩
  induction h with
  | nil => rfl
  | cons hfirst _ ih =>
    rw [List.mapM_cons, hfirst, ih]
    rfl

/-- Each of the results is read from one of the items. -/
theorem exists_of_mapM {ε α β : Type} {f : α → Except ε β} {xs : List α} {ys : List β} {y : β}
    (h : xs.mapM f = .ok ys) (hy : y ∈ ys) : ∃ x ∈ xs, f x = .ok y := by
  have hmember := exists_mem_of_forall₂ (forall₂_of_mapM h) hy
  exact hmember

/-! ## Entries -/

/-- In some object in the value, the value itself included, the key stands with `entry`. -/
inductive Json.HasEntry : Json → String → Json → Prop where
  | here {fields : List (String × Json)} {key : String} {entry : Json}
      (mem : (key, entry) ∈ fields) : HasEntry (.object fields) key entry
  | field {fields : List (String × Json)} {outer key : String} {value entry : Json}
      (mem : (outer, value) ∈ fields) (inner : HasEntry value key entry) :
      HasEntry (.object fields) key entry
  | item {items : List Json} {key : String} {value entry : Json} (mem : value ∈ items)
      (inner : HasEntry value key entry) : HasEntry (.array items) key entry

/-- All entries in the value have the property. -/
def Json.Entries (Q : String → Json → Prop) (value : Json) : Prop :=
  ∀ key entry, value.HasEntry key entry → Q key entry

namespace Json

variable {Q : String → Json → Prop}

/-- What holds of all entries in an array holds of those in each item. -/
theorem Entries.of_item {items : List Json} (h : (Json.array items).Entries Q) :
    ∀ item ∈ items, item.Entries Q :=
  fun _ hitem key entry hentry => h key entry (.item hitem hentry)

/-- What holds of all entries in an object holds of its own and of those inside them. -/
theorem Entries.of_field {fields : List (String × Json)} (h : (Json.object fields).Entries Q) :
    ∀ field ∈ fields, Q field.1 field.2 ∧ field.2.Entries Q :=
  fun _ hfield => ⟨h _ _ (.here hfield), fun key entry hentry => h key entry (.field hfield hentry)⟩

/-- The documents in a value have no entries but those of the value. -/
theorem Entries.of_mem_items {value document : Json} (h : value.Entries Q)
    (hdocument : document ∈ Condition.items value) : document.Entries Q := by
  cases value with
  | array items => exact h.of_item document hdocument
  | _ => exact List.mem_singleton.1 hdocument ▸ h

/-- The entries in an array are those in its items. -/
theorem entries_array {items : List Json} :
    (Json.array items).Entries Q ↔ ∀ item ∈ items, item.Entries Q := by
  refine ⟨Entries.of_item, fun h key entry hentry => ?_⟩
  cases hentry with
  | item mem inner => exact h _ mem key entry inner

/-- The entries in an object are its own and those inside them. -/
theorem entries_object {fields : List (String × Json)} : (Json.object fields).Entries Q ↔
    ∀ field ∈ fields, Q field.1 field.2 ∧ field.2.Entries Q := by
  refine ⟨Entries.of_field, fun h key entry hentry => ?_⟩
  cases hentry with
  | here mem => exact (h _ mem).1
  | field mem inner => exact (h _ mem).2 key entry inner

/-- Only lists and objects have entries. -/
theorem entries_string (text : String) : (Json.string text).Entries Q := by
  rintro key entry ⟨⟩

end Json

/-! ## Documents -/

namespace Condition

variable {s : Schema}

/-- A document in a value is no larger than the value. -/
theorem sizeOf_items {value document : Json} (h : document ∈ items value) :
    sizeOf document ≤ sizeOf value := by
  cases value with
  | array documents =>
    have hlt : sizeOf document < sizeOf documents := List.sizeOf_lt_of_mem h
    rw [Json.array.sizeOf_spec]
    omega
  | _ => exact Nat.le_of_eq (congrArg sizeOf (List.mem_singleton.1 h))

/-- Induction over a document: what holds of the documents in an entry's value and of the further
entries holds with the entry. -/
theorem fields_induction {P : List (String × Json) → Prop} (nil : P [])
    (cons : ∀ key value fields, (∀ inner, .object inner ∈ items value → P inner) → P fields →
      P ((key, value) :: fields)) : ∀ fields, P fields
  | [] => nil
  | (key, value) :: fields =>
    cons key value fields (fun inner _ => fields_induction nil cons inner)
      (fields_induction nil cons fields)
termination_by fields => sizeOf fields
decreasing_by
  · rename_i h
    have hvalue := sizeOf_items h
    simp only [Json.object.sizeOf_spec, List.cons.sizeOf_spec, Prod.mk.sizeOf_spec] at hvalue ⊢
    omega
  · simp only [List.cons.sizeOf_spec]
    omega

/-- Every condition that the reader gives on a model has the property on that model. -/
def Gives (P : Model s → Condition s → Prop) (read : DocumentReader s) : Prop :=
  ∀ model conditions, read model = .ok conditions → ∀ c ∈ conditions, P model c

/-- An entry has the property when the documents in its value have it. -/
def EntryGives (P : Model s → Condition s → Prop) : Prop :=
  ∀ model text value readers c, (∀ read ∈ readers, Gives P read) →
    ofEntry model text value readers = .ok c → P model c

/-- An entry with a property of its own has `P` when the documents in its value have it. -/
def EntryGivesIf (Q : String → Json → Prop) (P : Model s → Condition s → Prop) : Prop :=
  ∀ model text value readers c, Q text value → (∀ read ∈ readers, Gives P read) →
    ofEntry model text value readers = .ok c → P model c

variable {Q : String → Json → Prop} {P : Model s → Condition s → Prop}

/-- A reader that gives nothing gives what is asked for. -/
theorem gives_nil : Gives P fun _ => .ok [] := by
  intro model conditions h c hc
  cases h
  cases hc

/-- So does a reader that fails. -/
theorem gives_error (e : Model s → Error) : Gives P fun model => .error (e model) := by
  intro model conditions h
  cases h

/-- What is given does not depend on how errors are told. -/
theorem Gives.mapError {read : DocumentReader s} (h : Gives P read) (e : Model s → Error → Error) :
    Gives P fun model => (read model).mapError (e model) := by
  intro model conditions hread
  exact h model conditions (mapError_eq_ok_iff.1 hread)

/-- A nested document is read as required if it is an object that is read so, and otherwise always. -/
theorem gives_nested {document : Json}
    (hobject : ∀ inner, document = .object inner → Gives P (ofFields inner)) :
    Gives P (nested document) := by
  cases document with
  | object inner => exact (hobject inner rfl).mapError _
  | null => exact gives_nil
  | _ => exact gives_error _

/-- All conditions of a document have the property if it passes from the documents in an entry's
value to the entry, for entries as required. -/
theorem ofFields_gives (entry : EntryGivesIf Q P) (fields : List (String × Json))
    (hfields : ∀ field ∈ fields, Q field.1 field.2 ∧ field.2.Entries Q) :
    Gives P (ofFields fields) := by
  induction fields using fields_induction with
  | nil => exact gives_nil
  | cons key value fields hinner ih =>
    intro model conditions h c hc
    rw [ofFields_cons, bind_eq_ok_iff] at h
    rcases h with ⟨first, hfirst, h⟩
    rw [bind_eq_ok_iff] at h
    rcases h with ⟨rest, hrest, h⟩
    rw [pure_eq_ok_iff] at h
    subst h
    rcases hfields (key, value) List.mem_cons_self with ⟨hentry, hvalue⟩
    -- the documents in the value are smaller than the entry, so the induction covers them
    have hreaders : ∀ read ∈ readersOf (s := s) value, Gives P read := by
      intro read hread
      rw [readersOf_eq_map] at hread
      rcases List.mem_map.1 hread with ⟨document, hdocument, rfl⟩
      refine gives_nested fun inner hobject => ?_
      subst hobject
      exact hinner inner hdocument (hvalue.of_mem_items hdocument).of_field
    rcases List.mem_cons.1 hc with rfl | hc
    · exact entry model key value _ _ hentry hreaders hfirst
    · exact ih (fun field hfield => hfields field (List.mem_cons_of_mem _ hfield)) model rest hrest c hc

/-- A property that passes from nested documents to entries holds of all conditions of a document
whose entries are as required. -/
theorem ofDocument_givesIf (entry : EntryGivesIf Q P) {value : Json} (hvalue : value.Entries Q) :
    Gives P (ofDocument value) := by
  cases value with
  | object fields => exact ofFields_gives entry fields hvalue.of_field
  | null => exact gives_nil
  | _ => exact gives_error _

/-- A property that passes from nested documents to entries holds of all conditions of a
document. -/
theorem ofDocument_gives (entry : EntryGives P) (value : Json) : Gives P (ofDocument value) :=
  ofDocument_givesIf (Q := fun _ _ => True)
    (fun model text value readers c _ => entry model text value readers c) fun _ _ _ => trivial

/-! ## Rules that read documents -/

section Rules

variable {m : Model s} {columns : List (Column s)} {value : Json} {readers : List (DocumentReader s)}
  {c : Condition s}

/-- A document that may be missing gives what it gives if it is there. -/
theorem gives_of_readOptional {reader : Option (DocumentReader s)}
    (hreader : ∀ read ∈ reader, Gives P read) : Gives P (readOptional reader) := by
  cases reader with
  | none => exact gives_nil
  | some read => exact hreader read rfl

/-- The rows of a relation join are those that its columns lead to, and the documents about them are
read on their model. -/
theorem targets_of_ofRelationJoin (hreaders : ∀ read ∈ readers, Gives P read)
    (h : ofRelationJoin columns readers = .ok c) : ∃ targets, c = .relationJoin targets ∧
      ∀ t ∈ targets, t.column ∈ columns ∧ t.column.checkAllowed = .ok () ∧
        ∃ n, t.column.relationTarget? = some n ∧ ∀ document ∈ t.nested, ∀ c ∈ document, P n c := by
  simp only [ofRelationJoin, bind_eq_ok_iff, pure_eq_ok_iff] at h
  rcases h with ⟨targets, htargets, rfl⟩
  refine ⟨targets, rfl, fun t ht => ?_⟩
  rcases exists_of_mapM htargets ht with ⟨column, hcolumn, hread⟩
  rw [joinTarget] at hread
  split at hread
  · cases hread
  · rename_i n hrows
    simp only [bind_eq_ok_iff, pure_eq_ok_iff] at hread
    rcases hread with ⟨_, hallowed, documents, hdocuments, rfl⟩
    refine ⟨hcolumn, hallowed, n, hrows, fun document hdocument => ?_⟩
    rcases exists_of_mapM hdocuments hdocument with ⟨read, hmem, hread⟩
    exact hreaders read hmem n document hread

/-- A sub-query and the conditions on its row are read on the target of its relation. -/
theorem parts_of_ofDerivedJoin (hreaders : ∀ read ∈ readers, Gives P read)
    (h : ofDerivedJoin columns readers = .ok c) : ∃ column relation subquery conditions,
      c = .derivedJoin column relation subquery conditions ∧ column ∈ columns ∧
        directRelation column = .ok relation ∧ column.checkAllowed = .ok () ∧
          (∀ c ∈ subquery, P relation.target c) ∧ ∀ c ∈ conditions, P relation.target c := by
  have hoptional : ∀ i : Nat, Gives P (readOptional readers[i]?) :=
    fun i => gives_of_readOptional fun read hread => hreaders read (List.mem_of_getElem? hread)
  unfold ofDerivedJoin at h
  split at h
  · rename_i column
    simp only [bind_eq_ok_iff, pure_eq_ok_iff] at h
    rcases h with
        ⟨relation, hrelation, _, hallowed, subquery, hsubquery, conditions, hconditions, rfl⟩
    exact ⟨column, relation, subquery, conditions, rfl, List.mem_cons_self, hrelation, hallowed,
      hoptional 0 _ _ hsubquery, hoptional 1 _ _ hconditions⟩
  · cases h

/-- A property that passes from nested conditions to the joins that they are nested in. -/
structure Nests (P : Condition s → Prop) : Prop where
  relationJoin {targets : List (Target s (List (List (Condition s))))}
    (nested : ∀ t ∈ targets, ∀ document ∈ t.nested, ∀ c ∈ document, P c) : P (.relationJoin targets)
  derivedJoin {column : Column s} {relation : Relation s} {subquery conditions : List (Condition s)}
    (rows : ∀ c ∈ subquery, P c) (nested : ∀ c ∈ conditions, P c) :
    P (.derivedJoin column relation subquery conditions)

/-- A relation join has such a property if its documents give it. -/
theorem Nests.ofRelationJoin {P : Condition s → Prop} (hP : Nests P)
    (hreaders : ∀ read ∈ readers, Gives (fun _ c => P c) read)
    (h : ofRelationJoin columns readers = .ok c) : P c := by
  rcases targets_of_ofRelationJoin hreaders h with ⟨targets, rfl, htargets⟩
  refine hP.relationJoin fun t ht => ?_
  rcases htargets t ht with ⟨_, _, _, _, hnested⟩
  exact hnested

/-- A derived join has such a property if its documents give it. -/
theorem Nests.ofDerivedJoin {P : Condition s → Prop} (hP : Nests P)
    (hreaders : ∀ read ∈ readers, Gives (fun _ c => P c) read)
    (h : ofDerivedJoin columns readers = .ok c) : P c := by
  rcases parts_of_ofDerivedJoin hreaders h with
    ⟨_, _, _, _, rfl, _, _, _, hsubquery, hconditions⟩
  exact hP.derivedJoin hsubquery hconditions

/-- A selected target is a column, or a relation with a document about its rows. -/
theorem targets_of_ofSelect (hreaders : ∀ read ∈ readers, Gives P read)
    (h : ofSelect columns value readers = .ok c) : ∃ targets, c = .select targets ∧
      ∀ t ∈ targets, t.column ∈ columns ∧ t.column.checkAllowed = .ok () ∧
        ((t.column.isColumn = true ∧ t.nested = []) ∨ (t.column.isColumn = false ∧
          ∃ r, t.column.relation? = some r ∧ ∀ c ∈ t.nested, P r.target c)) := by
  simp only [ofSelect, bind_eq_ok_iff, pure_eq_ok_iff] at h
  rcases h with ⟨targets, htargets, rfl⟩
  -- a document without entries is not read
  have hdocument : ∀ read ∈ (if hasEntries value then readers.head? else none), Gives P read := by
    intro read hread
    split at hread
    · exact hreaders read (List.mem_of_head? hread)
    · cases hread
  generalize (if hasEntries value then readers.head? else none) = document at htargets hdocument
  refine ⟨targets, rfl, fun t ht => ?_⟩
  rcases exists_of_mapM htargets ht with ⟨column, hmem, hread⟩
  rw [selectTarget] at hread
  split at hread
  · -- a column has no document
    rename_i hcolumn
    split at hread
    · cases hread
    · simp only [bind_eq_ok_iff, pure_eq_ok_iff] at hread
      rcases hread with ⟨_, hallowed, rfl⟩
      exact ⟨hmem, hallowed, .inl ⟨hcolumn, rfl⟩⟩
  · -- a relation is followed by its document, which is read on its target
    rename_i hother
    split at hread
    · cases hread
    · rename_i r hr
      simp only [bind_eq_ok_iff, pure_eq_ok_iff] at hread
      rcases hread with ⟨_, hallowed, nested, hnested, rfl⟩
      exact ⟨hmem, hallowed, .inr ⟨Bool.eq_false_iff.2 hother, r, hr,
        gives_of_readOptional hdocument _ _ hnested⟩⟩

/-- The conditions in a selection have a property that does not depend on the model if the documents
of the selection give it. -/
theorem nested_of_ofSelect {P : Condition s → Prop}
    (hreaders : ∀ read ∈ readers, Gives (fun _ c => P c) read)
    (h : ofSelect columns value readers = .ok c) : ∃ targets, c = .select targets ∧
      ∀ t ∈ targets, t.column ∈ columns ∧ ∀ c ∈ t.nested, P c := by
  rcases targets_of_ofSelect hreaders h with ⟨targets, rfl, htargets⟩
  refine ⟨targets, rfl, fun t ht => ?_⟩
  rcases htargets t ht with ⟨hcolumn, _, ⟨_, hnil⟩ | ⟨_, _, _, hnested⟩⟩
  · rw [hnil]
    exact ⟨hcolumn, List.forall_mem_nil _⟩
  · exact ⟨hcolumn, hnested⟩

/-- A function orders by columns that have been checked, or sets a limit or an offset. -/
theorem parts_of_ofFunction (h : ofFunction m columns value = .ok c) :
    (∃ entries, c = .order entries ∧
      ∀ e ∈ entries, ∃ spec, e.1 = Column.ofText m spec ∧ e.1.check = .ok ()) ∨
    (∃ n, c = .limit n) ∨ ∃ n, c = .offset n := by
  simp only [ofFunction] at h
  -- an order with its entries, a limit or an offset
  split at h
  · simp only [bind_eq_ok_iff, pure_eq_ok_iff] at h
    rcases h with ⟨_, _, entries, hentries, rfl⟩
    refine .inl ⟨entries, rfl, fun e he => ?_⟩
    rcases exists_of_mapM hentries he with ⟨written, _, hresolve⟩
    simp only [OrderEntry.resolve, bind_eq_ok_iff, pure_eq_ok_iff] at hresolve
    rcases hresolve with ⟨_, hcheck, rfl⟩
    exact ⟨written.1, rfl, hcheck⟩
  · cases h
    exact .inr (.inl ⟨_, rfl⟩)
  · cases h
    exact .inr (.inr ⟨_, rfl⟩)
  · cases h

end Rules

end Condition

end DocQuery
