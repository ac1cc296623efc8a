import DocQuery.Proofs.Build.Replace
import DocQuery.Proofs.Document.Rules

namespace DocQuery

/-! # Replacing entries inside a query

A query document has documents in it: those about related rows, the sub-queries and the conditions
on their rows. Where the entries of one of them can be replaced, so can the query that it stands in.

* `RewritesOn.readReplaced`: a document whose inner document is rewritten reads like the original.
* `compile_iff_of_rewrites`: so a rewritten query compiles exactly if the original does, to the same
  plan.
-/

variable {s : Schema}

/-! ## Places of documents -/

/-- The second document is the first with the entries of one document in it replaced, that of the
document itself or of one that an entry holds. -/
inductive Rewrites (R : List (String × Json) → List (String × Json) → Prop) : Json → Json → Prop where
  | here {fields fields' : List (String × Json)} (replaced : R fields fields') :
      Rewrites R (.object fields) (.object fields')
  /-- The document about the rows of a joined or selected relation. -/
  | entry {front back : List (String × Json)} {text : String} {key : Key} {value value' : Json}
      (parsed : Key.parse text = some key) (operator : key.operator = "=>" ∨ key.operator = "")
      (inner : Rewrites R value value') :
      Rewrites R (.object (front ++ (text, value) :: back)) (.object (front ++ (text, value') :: back))
  /-- One of several documents about the rows of a joined relation, a sub-query or the conditions on
  its row. -/
  | item {front back : List (String × Json)} {text : String} {key : Key} {before after : List Json}
      {value value' : Json} (parsed : Key.parse text = some key)
      (operator : key.operator = "=>" ∨ key.operator = "()") (inner : Rewrites R value value') :
      Rewrites R (.object (front ++ (text, .array (before ++ value :: after)) :: back))
        (.object (front ++ (text, .array (before ++ value' :: after)) :: back))

variable {R : List (String × Json) → List (String × Json) → Prop} {value value' : Json}

/-- The same rewriting the other way round. -/
theorem Rewrites.flip (h : Rewrites R value value') :
    Rewrites (fun fields fields' => R fields' fields) value' value := by
  induction h with
  | here replaced => exact .here replaced
  | entry parsed operator _ ih => exact .entry parsed operator ih
  | item parsed operator _ ih => exact .item parsed operator ih

/-- The models of the rows that the columns of a key lead to, from the models of `K`. -/
def Key.rowsFrom (key : Key) (K : Model s → Prop) (n : Model s) : Prop :=
  ∃ m, K m ∧ ∃ text ∈ key.columns, (Column.ofText m text).relationTarget? = some n

/-- The second document, which is read on models of `K`, is the first with the entries of one
document in it replaced. Which entries can be replaced may depend on the models that they are read
on. -/
inductive RewritesOn (R : (Model s → Prop) → List (String × Json) → List (String × Json) → Prop) :
    (Model s → Prop) → Json → Json → Prop where
  | here {K : Model s → Prop} {fields fields' : List (String × Json)} (replaced : R K fields fields') :
      RewritesOn R K (.object fields) (.object fields')
  | entry {K : Model s → Prop} {front back : List (String × Json)} {text : String} {key : Key}
      {value value' : Json} (parsed : Key.parse text = some key)
      (operator : key.operator = "=>" ∨ key.operator = "")
      (inner : RewritesOn R (key.rowsFrom K) value value') :
      RewritesOn R K (.object (front ++ (text, value) :: back))
        (.object (front ++ (text, value') :: back))
  | item {K : Model s → Prop} {front back : List (String × Json)} {text : String} {key : Key}
      {before after : List Json} {value value' : Json} (parsed : Key.parse text = some key)
      (operator : key.operator = "=>" ∨ key.operator = "()")
      (inner : RewritesOn R (key.rowsFrom K) value value') :
      RewritesOn R K (.object (front ++ (text, .array (before ++ value :: after)) :: back))
        (.object (front ++ (text, .array (before ++ value' :: after)) :: back))

variable {K : Model s → Prop}
  {S : (Model s → Prop) → List (String × Json) → List (String × Json) → Prop}

/-- Entries that can be replaced anywhere can be on these models. -/
theorem Rewrites.rewritesOn (h : Rewrites R value value') (K : Model s → Prop) :
    RewritesOn (fun _ => R) K value value' := by
  induction h generalizing K with
  | here replaced => exact .here replaced
  | entry parsed operator _ ih => exact .entry parsed operator (ih _)
  | item parsed operator _ ih => exact .item parsed operator (ih _)

/-- The same rewriting the other way round, on the same models. -/
theorem RewritesOn.flip (h : RewritesOn S K value value') :
    RewritesOn (fun K fields fields' => S K fields' fields) K value' value := by
  induction h with
  | here replaced => exact .here replaced
  | entry parsed operator _ ih => exact .entry parsed operator ih
  | item parsed operator _ ih => exact .item parsed operator ih

/-- Both documents have entries. -/
theorem RewritesOn.exists_fields
    (hS : ∀ K fields fields', S K fields fields' → fields ≠ [] ∧ fields' ≠ [])
    (h : RewritesOn S K value value') : (∃ fields, value = .object fields ∧ fields ≠ []) ∧
      ∃ fields', value' = .object fields' ∧ fields' ≠ [] := by
  cases h with
  | here replaced =>
    rcases hS _ _ _ replaced with ⟨hfields, hfields'⟩
    exact ⟨⟨_, rfl, hfields⟩, _, rfl, hfields'⟩
  | entry => exact ⟨⟨_, rfl, by simp⟩, _, rfl, by simp⟩
  | item => exact ⟨⟨_, rfl, by simp⟩, _, rfl, by simp⟩

/-! ## Rules of places -/

/-- The values belong to the same classes. -/
def SameShapes (value value' : Json) : Prop :=
  ∀ shape : Shape, shape.accepts value' = shape.accepts value

/-- All objects belong to the same classes. -/
theorem sameShapes_object (fields fields' : List (String × Json)) :
    SameShapes (.object fields) (.object fields') := by
  intro shape
  cases shape <;> rfl

/-- In a list, an object can be replaced by another. -/
theorem sameShapes_array (before after : List Json) (fields fields' : List (String × Json)) :
    SameShapes (.array (before ++ .object fields :: after))
      (.array (before ++ .object fields' :: after)) := by
  intro shape
  cases shape with
  | pair => simp [Shape.accepts]
  | objectList =>
    have hsome : ∀ fields : List (String × Json),
        (before ++ Json.object fields :: after).isEmpty = false := by simp
    simp [Shape.accepts, Json.isObject, hsome]
  | subQuery => simp [Shape.accepts, Json.isObject]
  | timeSpan =>
    -- a time span has no object in it
    rcases before with _ | ⟨first, _ | ⟨second, before⟩⟩
    · rcases after with _ | ⟨next, _ | ⟨last, after⟩⟩
      · rfl
      · rfl
      · rfl
    · rcases after with _ | ⟨next, after⟩
      · simp [Shape.accepts, Json.isString, Json.isNumber]
      · rfl
    · cases before with
      | nil => rfl
      | cons third before => rfl
  | _ => rfl

/-- Values of the same classes have the same row. -/
theorem Rule.find?_of_sameShapes (h : SameShapes value value') (operator name : String) :
    find? operator name value' = find? operator name value := by
  have hshapes : ∀ shapes : List Shape,
      (shapes.any (·.accepts value')) = shapes.any (·.accepts value) := by
    intro shapes
    simp only [h _]
  simp only [find?, findIn?, accepts, FunctionName.find?, hshapes]

/-- A condition of this form has documents in it. -/
def Form.holdsDocuments : Form → Bool
  | relationJoin | derivedJoin | select => true
  | _ => false

theorem Rule.form_of_join : ∀ rule ∈ table, rule.operator = "=>" ∨ rule.operator = "()" →
    rule.form.holdsDocuments = true := by decide

/-- Only a selection takes an object without an operator. -/
theorem Rule.find?_object (name : String) (fields : List (String × Json)) :
    find? "" name (.object fields) = some ⟨"Select", "", [.null, .object], .select,
      "select the column, or eager-include the relation"⟩ := rfl

namespace Condition

variable {m : Model s} {columns : List (Column s)} {c : Condition s}
  {readers readers' : List (DocumentReader s)}

/-! ## Readers -/

/-- What the first reader gives on models of `K` can be replaced by what the second gives. -/
def ReadReplaced (K : Model s → Prop) (read read' : DocumentReader s) : Prop :=
  ∀ m conditions, K m → read m = .ok conditions →
    ∃ conditions', read' m = .ok conditions' ∧ ReplacedBy m conditions conditions'

/-- A document that stays. -/
theorem readReplaced_self (K : Model s → Prop) (value : Json) :
    ReadReplaced K (ofDocument value) (ofDocument value) := by
  intro m conditions _ h
  exact ⟨conditions, h, replacedBy_each conditions m (admitted_of_ofDocument h)⟩

theorem ReadReplaced.nested (h : ReadReplaced K (ofDocument value) (ofDocument value')) :
    ReadReplaced K (nested value) (nested value') := by
  intro m conditions hm hread
  rw [nested_eq, mapError_eq_ok_iff] at hread
  rcases h m conditions hm hread with ⟨conditions', hread', hreplaced⟩
  refine ⟨conditions', ?_, hreplaced⟩
  rw [nested_eq, mapError_eq_ok_iff]
  exact hread'

theorem readOptional_replaced {read read' : Option (DocumentReader s)}
    (h : Option.Rel (ReadReplaced K) read read') :
    ReadReplaced K (readOptional read) (readOptional read') := by
  cases h with
  | some hread => exact hread
  | none =>
    intro m conditions _ h
    cases h
    exact ⟨[], rfl, replacedBy_nil m⟩

/-! ## Conditions with documents -/

theorem joinTarget_replaced (hreaders : List.Forall₂ (ReadReplaced K) readers readers')
    {column : Column s} (hcolumn : column.ReadOn m)
    (hK : ∀ n, column.relationTarget? = some n → K n) {t : Target s (List (List (Condition s)))}
    (h : joinTarget readers column = .ok t) :
    ∃ t', joinTarget readers' column = .ok t' ∧ JoinReplaced m t t' := by
  rcases (joinTarget_eq_ok_iff hcolumn).1 h with ⟨rfl, n, hrows, hdocuments⟩
  have hn : K n := hK n hrows.relationTarget?_eq
  have heach : List.Forall₂ (fun read read' => ∀ document, read n = .ok document →
      ∃ document', read' n = .ok document' ∧ ReplacedBy n document document') readers readers' :=
    hreaders.imp fun _ _ hread document hdocument => hread n document hn hdocument
  rcases exists_forall₂ heach hdocuments with ⟨documents', hdocuments', hreplaced⟩
  refine ⟨⟨t.column, documents'⟩,
    (joinTarget_eq_ok_iff hcolumn).2 ⟨rfl, n, hrows, hdocuments'⟩, rfl, fun n' hrows' => ?_⟩
  -- the column leads to one model only
  have hsame : n' = n :=
    Option.some.inj (hrows'.relationTarget?_eq.symm.trans hrows.relationTarget?_eq)
  exact hsame ▸ hreplaced

theorem ofRelationJoin_replaced (hreaders : List.Forall₂ (ReadReplaced K) readers readers')
    (hcolumns : ∀ column ∈ columns, column.ReadOn m)
    (hK : ∀ column ∈ columns, ∀ n, column.relationTarget? = some n → K n)
    (h : ofRelationJoin columns readers = .ok c) :
    ∃ c', ofRelationJoin columns readers' = .ok c' ∧ ReplacedBy m [c] [c'] := by
  rcases ofRelationJoin_eq_ok_iff.1 h with ⟨targets, htargets, rfl⟩
  have heach : List.Forall₂ (fun column column' => ∀ t, joinTarget readers column = .ok t →
      ∃ t', joinTarget readers' column' = .ok t' ∧ JoinReplaced m t t') columns columns :=
    List.forall₂_same.2 fun column hcolumn t ht =>
      joinTarget_replaced hreaders (hcolumns column hcolumn) (hK column hcolumn) ht
  rcases exists_forall₂ heach htargets with ⟨targets', htargets', hreplaced⟩
  refine ⟨_, ofRelationJoin_eq_ok_iff.2 ⟨targets', htargets', rfl⟩,
    replacedBy_relationJoin hreplaced fun t ht => ?_⟩
  rcases exists_mem_of_forall₂ htargets ht with ⟨column, hcolumn, htarget⟩
  rcases (joinTarget_eq_ok_iff (hcolumns column hcolumn)).1 htarget with ⟨rfl, n, hrows, _⟩
  exact ⟨n, hrows⟩

theorem ofDerivedJoin_replaced (hreaders : List.Forall₂ (ReadReplaced K) readers readers')
    (hK : ∀ column ∈ columns, ∀ n, column.relationTarget? = some n → K n) (hadmitted : c.Admitted m)
    (h : ofDerivedJoin columns readers = .ok c) :
    ∃ c', ofDerivedJoin columns readers' = .ok c' ∧ ReplacedBy m [c] [c'] := by
  unfold ofDerivedJoin at h ⊢
  split at h
  · simp only [bind_eq_ok_iff, pure_eq_ok_iff] at h ⊢
    rcases h with
        ⟨relation, hrelation, _, hallowed, subquery, hsubquery, conditions, hconditions, rfl⟩
    cases hadmitted with
    | derivedJoin own direct reached rows nested =>
      have hrows : Column.LeadsToRows m _ relation.target := .inr ⟨relation, reached, rfl⟩
      have htarget : K relation.target := hK _ List.mem_cons_self _ hrows.relationTarget?_eq
      -- the documents are those of the first two readers
      rcases readOptional_replaced (rel_getElem? hreaders 0) _ _ htarget hsubquery with
          ⟨subquery', hsubquery', hsub⟩
      rcases readOptional_replaced (rel_getElem? hreaders 1) _ _ htarget hconditions with
          ⟨conditions', hconditions', hrows⟩
      exact ⟨_, ⟨relation, hrelation, _, hallowed, subquery', hsubquery', conditions',
        hconditions', rfl⟩, replacedBy_derivedJoin (reached.resolved_owner own).2 hsub hrows⟩
  · cases h

theorem selectTarget_replaced {document document' : Option (DocumentReader s)}
    (hdocument : Option.Rel (ReadReplaced K) document document') {column : Column s}
    (hK : ∀ n, column.relationTarget? = some n → K n) {t : Target s (List (Condition s))}
    (h : selectTarget document column = .ok t) :
    ∃ t', selectTarget document' column = .ok t' ∧ SelectReplaced m t t' := by
  unfold selectTarget at h ⊢
  split at h
  · rename_i hcolumn
    rw [if_pos hcolumn]
    -- a column takes no document
    cases hdocument with
    | some _ => cases h
    | none =>
      simp only [Option.isSome_none, Bool.false_eq_true, if_false, bind_eq_ok_iff, pure_eq_ok_iff] at h ⊢
      rcases h with ⟨_, hallowed, rfl⟩
      exact ⟨_, ⟨_, hallowed, rfl⟩, rfl, Iff.rfl, fun r _ => replacedBy_nil _⟩
  · rename_i hcolumn
    rw [if_neg hcolumn]
    split at h
    · cases h
    · rename_i relation hrelation
      simp only [bind_eq_ok_iff, pure_eq_ok_iff] at h ⊢
      rcases h with ⟨_, hallowed, conditions, hconditions, rfl⟩
      -- a relation's document is read on its target
      have htarget : K relation.target := hK _ (Column.relationTarget?_of_relation? hrelation)
      rcases readOptional_replaced hdocument _ _ htarget hconditions with
          ⟨conditions', hconditions', hsame⟩
      refine ⟨_, ⟨_, hallowed, conditions', hconditions', rfl⟩, rfl, hsame.nil_iff, fun r hr => ?_⟩
      rw [hr.relation?_eq] at hrelation
      cases hrelation
      exact hsame

theorem ofSelect_replaced (hreaders : List.Forall₂ (ReadReplaced K) readers readers')
    (hK : ∀ column ∈ columns, ∀ n, column.relationTarget? = some n → K n)
    (hentries : hasEntries value' = hasEntries value) (hadmitted : c.Admitted m)
    (h : ofSelect columns value readers = .ok c) :
    ∃ c', ofSelect columns value' readers' = .ok c' ∧ ReplacedBy m [c] [c'] := by
  have hdocument : Option.Rel (ReadReplaced K) (if hasEntries value then readers.head? else none)
      (if hasEntries value then readers'.head? else none) := by
    split
    · rw [List.head?_eq_getElem?, List.head?_eq_getElem?]
      exact rel_getElem? hreaders 0
    · exact .none
  simp only [ofSelect, hentries, bind_eq_ok_iff, pure_eq_ok_iff, mapM_eq_ok_iff] at h ⊢
  rcases h with ⟨targets, htargets, rfl⟩
  have heach : List.Forall₂ (fun column column' => ∀ t,
      selectTarget (if hasEntries value then readers.head? else none) column = .ok t →
      ∃ t', selectTarget (if hasEntries value then readers'.head? else none) column' = .ok t' ∧
        SelectReplaced m t t') columns columns :=
    List.forall₂_same.2 fun column hcolumn t ht =>
      selectTarget_replaced hdocument (hK column hcolumn) ht
  rcases exists_forall₂ heach htargets with ⟨targets', htargets', hreplaced⟩
  cases hadmitted with
  | select reached _ =>
    exact ⟨_, ⟨targets', htargets', rfl⟩, replacedBy_select hreplaced reached⟩

/-- In an entry with documents they can be replaced. -/
theorem ofEntry_replaced {text : String} {key : Key} {rule : Rule} (hkey : Key.parse text = some key)
    (hrule : Rule.find? key.operator (key.columns.head?.getD "") value = some rule)
    (hform : rule.form.holdsDocuments = true) (hshapes : SameShapes value value')
    (hentries : hasEntries value' = hasEntries value)
    (hm : K m) (hreaders : List.Forall₂ (ReadReplaced (key.rowsFrom K)) readers readers')
    (hadmitted : c.Admitted m) (h : ofEntry m text value readers = .ok c) :
    ∃ c', ofEntry m text value' readers' = .ok c' ∧ ReplacedBy m [c] [c'] := by
  have hcolumns : ∀ column ∈ key.columns.map (Column.ofText m), column.ReadOn m := by
    intro column hcolumn
    rcases List.mem_map.1 hcolumn with ⟨spec, _, rfl⟩
    exact Column.ofText_readOn m spec
  have hK : ∀ column ∈ key.columns.map (Column.ofText m), ∀ n, column.relationTarget? = some n →
      key.rowsFrom K n := by
    intro column hcolumn n hn
    rcases List.mem_map.1 hcolumn with ⟨spec, hspec, rfl⟩
    exact ⟨m, hm, spec, hspec, hn⟩
  simp only [ofEntry_eq, hkey, Rule.find?_of_sameShapes hshapes, hrule] at h ⊢
  unfold ofRule at h ⊢
  -- three rows hold documents
  cases hrelation : rule.form with
  | relationJoin =>
    rw [hrelation] at h
    exact ofRelationJoin_replaced hreaders hcolumns hK h
  | derivedJoin =>
    rw [hrelation] at h
    exact ofDerivedJoin_replaced hreaders hK hadmitted h
  | select =>
    rw [hrelation] at h
    exact ofSelect_replaced hreaders hK hentries hadmitted h
  | _ =>
    rw [hrelation] at hform
    cases hform

/-! ## Documents -/

theorem ofFields_singleton_eq_ok_iff {text : String} {conditions : List (Condition s)} :
    ofFields [(text, value)] m = .ok conditions ↔
      ∃ c, ofEntry m text value (readersOf value) = .ok c ∧ conditions = [c] := by
  simp only [ofFields_cons, ofFields_nil, bind_eq_ok_iff, pure_eq_ok_iff]
  constructor
  · rintro ⟨c, hc, _, hnil, rfl⟩
    cases hnil
    exact ⟨c, hc, rfl⟩
  · rintro ⟨c, hc, rfl⟩
    exact ⟨c, hc, [], rfl, rfl⟩

/-- Entries can be replaced between others. -/
theorem ReadReplaced.between {fields fields' : List (String × Json)}
    (h : ReadReplaced K (ofFields fields) (ofFields fields')) (front back : List (String × Json)) :
    ReadReplaced K (ofFields (front ++ fields ++ back)) (ofFields (front ++ fields' ++ back)) := by
  have hself : ∀ fields : List (String × Json), ReadReplaced K (ofFields fields) (ofFields fields) :=
    fun fields => readReplaced_self K (.object fields)
  intro m conditions hm hread
  simp only [ofFields_append_eq_ok_iff] at hread ⊢
  rcases hread with ⟨_, last, ⟨first, middle, hfirst, hmiddle, rfl⟩, hlast, rfl⟩
  -- the entries around are replaced by themselves
  rcases hself front m first hm hfirst with ⟨first', hfirst', hstays⟩
  rcases h m middle hm hmiddle with ⟨middle', hmiddle', hreplaced⟩
  rcases hself back m last hm hlast with ⟨last', hlast', hstays'⟩
  exact ⟨_, ⟨_, last', ⟨first', middle', hfirst', hmiddle', rfl⟩, hlast', rfl⟩,
    (hstays.append hreplaced).append hstays'⟩

/-- An entry can be replaced by another that is read as the same condition. -/
theorem readReplaced_of_entry {text text' : String}
    (h : ∀ (m : Model s) c, ofEntry m text value (readersOf value) = .ok c →
      ofEntry m text' value' (readersOf value') = .ok c) (front back : List (String × Json)) :
    ReadReplaced K (ofFields (front ++ (text, value) :: back))
      (ofFields (front ++ (text', value') :: back)) := by
  have hone : ReadReplaced K (ofFields [(text, value)]) (ofFields [(text', value')]) := by
    intro m conditions _ hread
    have hdocument : ofDocument (.object [(text, value)]) m = .ok conditions := hread
    have hadmitted := admitted_of_ofDocument hdocument
    rcases ofFields_singleton_eq_ok_iff.1 hread with ⟨c, hc, rfl⟩
    exact ⟨[c], ofFields_singleton_eq_ok_iff.2 ⟨c, h m c hc, rfl⟩, replacedBy_each _ m hadmitted⟩
  have hfields := hone.between front back
  rw [List.append_assoc, List.append_assoc] at hfields
  exact hfields

/-- An entry that holds documents can be replaced when these can. -/
theorem ofDocument_replaced_of_entry {text : String} {key : Key} (hkey : Key.parse text = some key)
    (hholds : ∀ rule, Rule.find? key.operator (key.columns.head?.getD "") value = some rule →
      rule.form.holdsDocuments = true)
    (hshapes : SameShapes value value') (hentries : hasEntries value' = hasEntries value)
    (hreaders : List.Forall₂ (ReadReplaced (key.rowsFrom K)) (readersOf value) (readersOf value'))
    (front back : List (String × Json)) :
    ReadReplaced K (ofDocument (.object (front ++ (text, value) :: back)))
      (ofDocument (.object (front ++ (text, value') :: back))) := by
  have hone : ReadReplaced K (ofFields [(text, value)]) (ofFields [(text, value')]) := by
    intro m conditions hm hread
    have hdocument : ofDocument (.object [(text, value)]) m = .ok conditions := hread
    have hadmitted := admitted_of_ofDocument hdocument
    rcases ofFields_singleton_eq_ok_iff.1 hread with ⟨c, hc, rfl⟩
    rcases ofEntry_eq_ok_iff.1 hc with ⟨key', rule, hkey', hrule, _⟩
    rw [hkey] at hkey'
    cases hkey'
    rcases ofEntry_replaced hkey hrule (hholds rule hrule) hshapes hentries hm hreaders
      (hadmitted c List.mem_cons_self) hc with ⟨c', hc', hreplaced⟩
    exact ⟨[c'], ofFields_singleton_eq_ok_iff.2 ⟨c', hc', rfl⟩, hreplaced⟩
  have hfields := hone.between front back
  rw [List.append_assoc, List.append_assoc] at hfields
  exact hfields

end Condition

open Condition

/-- Where entries can be replaced in their document, they can be in any document around it. -/
theorem RewritesOn.readReplaced
    (hS : ∀ K fields fields', S K fields fields' → fields ≠ [] ∧ fields' ≠ [])
    (hread : ∀ K fields fields', S K fields fields' →
      ReadReplaced K (ofFields fields) (ofFields fields'))
    (h : RewritesOn S K value value') : ReadReplaced K (ofDocument value) (ofDocument value') := by
  induction h with
  | here replaced => exact hread _ _ _ replaced
  -- the document is the value of an entry: of a join, or of a selection
  | @entry K front back text key value value' parsed operator inner ih =>
    rcases inner.exists_fields hS with ⟨⟨fields, rfl, hne⟩, fields', rfl, hne'⟩
    have hreaders : List.Forall₂ (ReadReplaced (key.rowsFrom K)) (readersOf (.object fields))
        (readersOf (.object fields')) := by
      rw [readersOf_eq_map, readersOf_eq_map]
      exact .cons ih.nested .nil
    have hentries : hasEntries (.object fields') = hasEntries (.object fields) := by
      rw [hasEntries, hasEntries, List.isEmpty_eq_false_iff.2 hne, List.isEmpty_eq_false_iff.2 hne']
    refine ofDocument_replaced_of_entry parsed (fun rule hrule => ?_)
      (sameShapes_object fields fields') hentries hreaders front back
    rcases operator with hjoin | hselect
    · rcases Rule.mem_of_find? hrule with ⟨htable, hoperator, _⟩
      exact Rule.form_of_join rule htable (.inl (hoperator.trans hjoin))
    · rw [hselect, Rule.find?_object] at hrule
      cases hrule
      rfl
  -- the document is one of several: the items beside it are read as before
  | @item K front back text key before after value value' parsed operator inner ih =>
    rcases inner.exists_fields hS with ⟨⟨fields, rfl, _⟩, fields', rfl, _⟩
    have hreaders : List.Forall₂ (ReadReplaced (key.rowsFrom K))
        (readersOf (.array (before ++ .object fields :: after)))
        (readersOf (.array (before ++ .object fields' :: after))) := by
      have hsame : ∀ items : List Json, List.Forall₂ (ReadReplaced (key.rowsFrom K))
          (items.map nested) (items.map nested) := by
        intro items
        refine List.forall₂_same.2 fun read hread => ?_
        rcases List.mem_map.1 hread with ⟨item, _, rfl⟩
        exact (readReplaced_self _ item).nested
      rw [readersOf_eq_map, readersOf_eq_map]
      simp only [items, List.map_append, List.map_cons]
      exact List.rel_append (hsame before) (.cons ih.nested (hsame after))
    refine ofDocument_replaced_of_entry parsed (fun rule hrule => ?_)
      (sameShapes_array before after fields fields') rfl hreaders front back
    rcases Rule.mem_of_find? hrule with ⟨htable, hoperator, _⟩
    exact Rule.form_of_join rule htable (operator.imp hoperator.trans hoperator.trans)

/-- Entries that can be replaced on all models can be wherever they stand. -/
theorem Rewrites.readReplaced (hR : ∀ fields fields', R fields fields' → fields ≠ [] ∧ fields' ≠ [])
    (hread : ∀ fields fields', R fields fields' →
      ∀ {K : Model s → Prop}, ReadReplaced K (ofFields fields) (ofFields fields'))
    (h : Rewrites R value value') : ReadReplaced K (ofDocument value) (ofDocument value') :=
  (h.rewritesOn K).readReplaced (fun _ => hR) fun _ fields fields' hentries =>
    hread fields fields' hentries

namespace Query

variable {query query' : Json} {model : String} {config : Config} {plan : Plan}

/-- A query compiles to the plan of a query whose conditions can be replaced by its own. -/
theorem compile_of_readReplaced
    (h : ReadReplaced (s := s) (fun m => m.name = model) (ofDocument query) (ofDocument query'))
    (hcompile : compile s model query config = .ok plan) :
    compile s model query' config = .ok plan := by
  rcases compile_eq_ok_iff.1 hcompile with ⟨root, conditions, done, hstages⟩
  have hroot : root.name = model := Schema.name_of_model? hstages.root_eq
  rcases h root conditions hroot hstages.conditions_eq with ⟨conditions', hread, hreplaced⟩
  rcases hstages.buildEach with ⟨trees, e, hrun, hdone⟩
  have hready : (Draft.new root config).Ready (.root root.table) root :=
    Draft.ready_withBase root config root.table [] 0
  have htwins : Draft.Twins (.root root.table) root (Draft.new root config) (Draft.new root config) :=
    .of_ready hready (Draft.bridged_withBase root config root.table [] 0)
  rcases hreplaced.builds _ _ _ _ _ htwins hrun with ⟨trees', e', hrun', hgrow, hsame⟩
  -- the WHERE clauses have the same normal form, and no other clause names a path
  have hfinish : (e'.withPredicate (.all trees')).finish = done.finish := by
    rw [hdone, hgrow.alike.rest]
    exact finish_withPredicate (normalize_all_congr hsame.symm) e
  have hpush : trees'.foldl Predicate.push (Draft.new root config).predicate = .all trees' :=
    Predicate.foldl_push .and [] trees'
  refine compile_eq_ok_iff.2 ⟨root, conditions', e'.withPredicate (.all trees'), hstages.root_eq,
    hread, ?_, ?_⟩
  · exact buildWhere_runs_iff.2 ⟨trees', e', hrun', by rw [hpush]⟩
  · rw [hfinish]
    exact hstages.plan_eq

/-- Where entries can be replaced by each other on all models, queries compile alike. -/
theorem compile_iff_of_rewrites
    (hR : ∀ fields fields', R fields fields' → fields ≠ [] ∧ fields' ≠ [])
    (hsymm : ∀ fields fields', R fields fields' → R fields' fields)
    (hread : ∀ fields fields', R fields fields' →
      ∀ {K : Model s → Prop}, ReadReplaced K (ofFields fields) (ofFields fields'))
    (h : Rewrites R query query') :
    compile s model query config = .ok plan ↔ compile s model query' config = .ok plan := by
  constructor
  · exact compile_of_readReplaced (h.readReplaced hR hread)
  · -- the other direction is the rewriting back
    refine compile_of_readReplaced ?_
    exact h.flip.readReplaced (fun _ _ hentries => hR _ _ (hsymm _ _ hentries)) fun _ _ hentries =>
      hread _ _ (hsymm _ _ hentries)

end Query

end DocQuery
