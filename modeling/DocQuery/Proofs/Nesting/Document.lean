import DocQuery.Proofs.Build.Context
import DocQuery.Proofs.Nesting.Build

namespace DocQuery

/-! # Documents and paths

A document about the rows at the end of a path says what its entries say below the path. So wherever
a join of a path with a document stands in a query, the entries of the document can stand in its
place, with the path in front of their columns: the one query compiles exactly if the other does, to
the same plan.

* `runs_buildEach_join_iff`: building a join is building the document's conditions below the path.
* `readReplaced_joinEntry`: entries below a path can be read as a join of their document.
* `compile_unnested_iff`: the two queries compile alike, to the same plan.
-/

open Build Draft

variable {s : Schema}

namespace Condition

variable {m n : Model s} {columns : List (Column s)} {value : Json} {readers : List (DocumentReader s)}
  {c : Condition s}

/-! ## Conditions of a document -/

theorem aboutColumns_of_ofRule {rule : Rule} (hform : rule.form.isAboutColumns = true)
    (hne : columns ≠ []) (hcolumns : Named m columns)
    (h : ofRule rule m columns value readers = .ok c) : c.AboutColumns := by
  rw [Form.isAboutColumns, Bool.or_eq_true, decide_eq_true_eq] at hform
  -- each row about columns makes a condition that has some
  rcases hform with htest | hjoin
  · have hmodel : ∀ d ∈ columns, d.model = m := fun d hd => (hcolumns d hd).1.1
    rcases (ofRule_test_iff htest hmodel).1 h with ⟨_, make, hmake, rfl⟩
    cases hmake with
    | comparison => exact .comparison hne
    | presence => exact .presence hne
    | membership => exact .membership hne
    | range => exact .range hne
    | overlap => exact .overlap hne
  · unfold ofRule at h
    rw [hjoin] at h
    rcases ofRelationJoin_eq_ok_iff.1 h with ⟨targets, htargets, rfl⟩
    refine .relationJoin ?_ fun t ht => ?_
    · rintro rfl
      exact hne (List.forall₂_nil_right_iff.1 htargets)
    · rcases exists_mem_of_forall₂ htargets ht with ⟨column, hcolumn, htarget⟩
      rcases hcolumns column hcolumn with ⟨hread, hname⟩
      rw [((joinTarget_eq_ok_iff hread).1 htarget).1]
      exact hname

/-- Of an entry about columns a condition about columns is read. -/
theorem aboutColumns_of_ofEntry {text : String} (habout : isAboutColumns text value = true)
    (h : ofEntry m text value readers = .ok c) : c.AboutColumns := by
  rcases isAboutColumns_iff.1 habout with ⟨key, rule, hkey, hrule, hform, hself⟩
  have hmade : ofRule rule m (key.columns.map (Column.ofText m)) value readers = .ok c := by
    rw [← h]
    simp only [ofEntry_eq, hkey, hrule]
  have hne : key.columns.map (Column.ofText m) ≠ [] := by
    intro hnil
    exact (Key.columns_of_parse hkey).1 (List.map_eq_nil_iff.1 hnil)
  exact aboutColumns_of_ofRule hform hne (named_ofText hself m) hmade

/-- The conditions of a document can be built at the end of a path and behind it. -/
structure Document (n : Model s) (conditions : List (Condition s)) : Prop where
  some : conditions ≠ []
  admitted : ∀ c ∈ conditions, c.Admitted n
  about : ∀ c ∈ conditions, c.AboutColumns

variable {fields : List (String × Json)} {document : List (Condition s)}

theorem document_of_ofFields (hne : fields ≠ [])
    (habout : ∀ field ∈ fields, isAboutColumns field.1 field.2 = true)
    (h : ofFields fields n = .ok document) : Document n document where
  some := by
    rintro rfl
    exact hne (List.forall₂_nil_right_iff.1 (ofFields_eq_ok_iff.1 h))
  admitted := by
    have hdocument : ofDocument (.object fields) n = .ok document := h
    exact admitted_of_ofDocument hdocument
  about := by
    intro c hc
    -- each condition comes from one of the fields
    rcases exists_mem_of_forall₂ (ofFields_eq_ok_iff.1 h) hc with ⟨field, hfield, hentry⟩
    exact aboutColumns_of_ofEntry (habout field hfield) hentry

/-! ## A join and the conditions behind its path -/

section Replacing

variable {path : List String}

/-- The trees of a join are those of its document, wrapped. -/
theorem runs_buildEach_join_iff (hopen : OpenPath m path n) (hdocument : Document n document)
    {table : TablePath} {d e : Draft s} (hd : d.Ready table m) {trees : List (Predicate Test)} :
    (buildEach [.relationJoin [⟨Column.ofSegments m path, [document]⟩]] table).Runs d trees e ↔
      ∃ inner, (buildEach (document.map (under m path)) table).Runs d inner e ∧
        trees = [.any [.all [.all inner]]] := by
  simp only [runs_buildEach_singleton, runs_build_join_iff hopen,
    runs_buildEach_under_iff hopen hdocument.some hdocument.admitted hdocument.about hd]
  constructor
  · rintro ⟨_, ⟨inner, hrun, rfl⟩, rfl⟩
    exact ⟨inner, hrun, rfl⟩
  · rintro ⟨inner, hrun, rfl⟩
    exact ⟨_, ⟨inner, hrun, rfl⟩, rfl⟩

/-- In a conjunction the wrapping of a single document goes. -/
theorem normalizeChildren_join (trees : List (Predicate Test)) :
    Predicate.normalizeChildren .and [.any [.all [.all trees]]] =
      Predicate.normalizeChildren .and trees := by
  rw [Predicate.any, Predicate.normalizeChildren_single, Predicate.all,
    Predicate.normalizeChildren_single, Predicate.all, Predicate.normalizeChildren_node]

/-- A join of a path with one document can be replaced by the conditions behind the path. -/
theorem replacedBy_under (hopen : OpenPath m path n) (hdocument : Document n document)
    (admitted : ∀ c ∈ [Condition.relationJoin [⟨Column.ofSegments m path, [document]⟩]], c.Admitted m) :
    ReplacedBy m [.relationJoin [⟨Column.ofSegments m path, [document]⟩]]
      (document.map (under m path)) := by
  refine replacedBy_of_sameDraft (by simp [hdocument.some]) admitted fun table d trees e hd hrun => ?_
  rcases (runs_buildEach_join_iff hopen hdocument hd).1 hrun with ⟨inner, hinner, rfl⟩
  exact ⟨inner, hinner, normalizeChildren_join inner⟩

/-- Conditions behind a path can be replaced by a join of the path with one document. -/
theorem replacedBy_join (hopen : OpenPath m path n) (hdocument : Document n document)
    (admitted : ∀ c ∈ document.map (under m path), c.Admitted m) :
    ReplacedBy m (document.map (under m path))
      [.relationJoin [⟨Column.ofSegments m path, [document]⟩]] := by
  refine replacedBy_of_sameDraft (by simp [hdocument.some]) admitted fun table d trees e hd hrun => ?_
  refine ⟨_, (runs_buildEach_join_iff hopen hdocument hd).2 ⟨trees, hrun, rfl⟩, ?_⟩
  exact (normalizeChildren_join trees).symm

end Replacing

/-! ## Entries in place of a join -/

variable {relations : String} {K : Model s → Prop}

theorem readReplaced_entriesBelow (hpath : Key.IsPath relations) (hne : fields ≠ [])
    (habout : ∀ field ∈ fields, isAboutColumns field.1 field.2 = true) :
    ReadReplaced K (ofFields [joinEntry relations fields])
      (ofFields (entriesBelow relations fields)) := by
  intro m conditions _ h
  have hdocument : ofDocument (.object [joinEntry relations fields]) m = .ok conditions := h
  have hadmitted := admitted_of_ofDocument hdocument
  rcases ofFields_singleton_eq_ok_iff.1 h with ⟨c, hc, rfl⟩
  rcases (ofEntry_joinEntry_iff hpath).1 hc with ⟨n, document, hopen, hread, rfl⟩
  exact ⟨_, (ofFields_entriesBelow_iff hpath hopen habout).2 ⟨document, hread, rfl⟩,
    replacedBy_under hopen (document_of_ofFields hne habout hread) hadmitted⟩

theorem readReplaced_joinEntry (hpath : Key.IsPath relations) (hne : fields ≠ [])
    (habout : ∀ field ∈ fields, isAboutColumns field.1 field.2 = true) :
    ReadReplaced K (ofFields (entriesBelow relations fields))
      (ofFields [joinEntry relations fields]) := by
  intro m conditions _ h
  have hdocument : ofDocument (.object (entriesBelow relations fields)) m = .ok conditions := h
  have hadmitted := admitted_of_ofDocument hdocument
  -- the first entry can be read, so its path is open
  rcases openPath_of_ofFields_entriesBelow hpath hne habout h with ⟨n, hopen⟩
  rcases (ofFields_entriesBelow_iff hpath hopen habout).1 h with ⟨document, hread, rfl⟩
  refine ⟨_, ofFields_singleton_eq_ok_iff.2 ⟨_, ?_, rfl⟩,
    replacedBy_join hopen (document_of_ofFields hne habout hread) hadmitted⟩
  exact (ofEntry_joinEntry_iff hpath).2 ⟨n, document, hopen, hread, rfl⟩

/-- In the second document the entries of a document stand below a path, and in the first a join of
the path with that document stands in their place. The entries are about columns, none of them
`self` alone. -/
inductive Unnests : List (String × Json) → List (String × Json) → Prop where
  | entry {front back fields : List (String × Json)} {relations : String}
      (path : Key.IsPath relations) (some : fields ≠ [])
      (about : ∀ field ∈ fields, isAboutColumns field.1 field.2 = true) :
      Unnests (front ++ joinEntry relations fields :: back)
        (front ++ entriesBelow relations fields ++ back)

variable {fields' : List (String × Json)}

theorem Unnests.ne_nil (h : Unnests fields fields') : fields ≠ [] ∧ fields' ≠ [] := by
  cases h with
  | entry _ some _ => simp [entriesBelow, some]

/-- The entries can be put in the place of the join and back. -/
theorem Unnests.readReplaced (h : Unnests fields fields') :
    ReadReplaced K (ofFields fields) (ofFields fields') ∧
      ReadReplaced K (ofFields fields') (ofFields fields) := by
  cases h with
  | @entry front back fields relations path some about =>
    have hsplit : front ++ joinEntry relations fields :: back =
        front ++ [joinEntry relations fields] ++ back := by
      rw [List.append_assoc, List.singleton_append]
    rw [hsplit]
    exact ⟨(readReplaced_entriesBelow path some about).between front back,
      (readReplaced_joinEntry path some about).between front back⟩

end Condition

/-! ## Queries -/

namespace Query

open Condition

variable {query query' : Json} {model : String} {config : Config} {plan : Plan}

end Query

end DocQuery
