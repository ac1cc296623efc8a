import DocQuery.Proofs.Document.Access
import DocQuery.Proofs.Text.Split

namespace DocQuery

/-! # What conditions list

The columns that a condition selects or orders by are written into lists of the statement under
their names. In a document such a name is one that a model declares, and has no point in it: columns
are written with points between their segments.

* `entryGives_lists`: whatever an entry lists is a declared name without a point.
-/

variable {s : Schema} {P : String → Prop}

namespace Column

/-- The name of a written column has no points. -/
theorem undotted_of_ofText {m : Model s} {spec name : String} (h : (ofText m spec).name = some name) :
    '.' ∉ name.toList := by
  have hmem : name ∈ segmentsOf spec := List.mem_of_getLast? h
  rcases List.mem_map.1 (List.mem_of_mem_filter hmem) with ⟨piece, hpiece, rfl⟩
  intro hdot
  rw [String.toList_ofList] at hdot
  have hseparator := forall_not_of_mem_splitOnP hpiece '.' hdot
  cases hseparator

/-- A written column that exists has a declared name without points. -/
theorem named_of_isColumn (hP : ∀ (m : Model s) (name : String), m.hasColumn name = true →
    '.' ∉ name.toList → P name) {m : Model s} {spec : String} (h : (ofText m spec).isColumn = true) :
    P ((ofText m spec).name.getD "") := by
  unfold isColumn at h
  split at h
  · rename_i n name _ hname
    rw [hname, Option.getD_some]
    exact hP n name h (undotted_of_ofText hname)
  · cases h

end Column

namespace Condition

/-- The names of the columns that the condition selects or orders by have the property, those in
nested documents and sub-queries included. -/
inductive Lists (P : String → Prop) : Condition s → Prop where
  | comparison (rule template : String) (columns : List (Column s)) (values : List Operand) :
      Lists P (.comparison rule template columns values)
  | presence (rule template : String) (columns : List (Column s)) :
      Lists P (.presence rule template columns)
  | membership (rule template : String) (columns : List (Column s)) (values : Operand) :
      Lists P (.membership rule template columns values)
  | range (rule template : String) (columns : List (Column s)) (low high : Operand) :
      Lists P (.range rule template columns low high)
  | overlap (rule template : String) (columns : List (Column s)) (span : TimeSpan) :
      Lists P (.overlap rule template columns span)
  | relationJoin {targets : List (Target s (List (List (Condition s))))}
      (nested : ∀ t ∈ targets, ∀ document ∈ t.nested, ∀ c ∈ document, Lists P c) :
      Lists P (.relationJoin targets)
  | derivedJoin {column : Column s} {relation : Relation s} {subquery conditions : List (Condition s)}
      (rows : ∀ c ∈ subquery, Lists P c) (nested : ∀ c ∈ conditions, Lists P c) :
      Lists P (.derivedJoin column relation subquery conditions)
  | select {targets : List (Target s (List (Condition s)))}
      (named : ∀ t ∈ targets, t.column.isColumn = true → P (t.column.name.getD ""))
      (nested : ∀ t ∈ targets, ∀ c ∈ t.nested, Lists P c) : Lists P (.select targets)
  | order {entries : List (Column s × Direction)} (named : ∀ e ∈ entries, P (e.1.name.getD "")) :
      Lists P (.order entries)
  | limit (n : Nat) : Lists P (.limit n)
  | offset (n : Nat) : Lists P (.offset n)

variable {m : Model s} {columns : List (Column s)} {value : Json} {readers : List (DocumentReader s)}
  {c : Condition s}

theorem nests_lists : Nests (s := s) (Lists P) := ⟨.relationJoin, .derivedJoin⟩

theorem lists_of_ofSelect (hreaders : ∀ read ∈ readers, Gives (fun _ c => c.Lists P) read)
    (hcolumns : ∀ c ∈ columns, c.isColumn = true → P (c.name.getD ""))
    (h : ofSelect columns value readers = .ok c) : c.Lists P := by
  rcases nested_of_ofSelect hreaders h with ⟨targets, rfl, htargets⟩
  exact .select (fun t ht => hcolumns _ (htargets t ht).1) fun t ht => (htargets t ht).2

theorem lists_of_ofFunction (hP : ∀ (m : Model s) (name : String), m.hasColumn name = true →
    '.' ∉ name.toList → P name) (h : ofFunction m columns value = .ok c) : c.Lists P := by
  rcases parts_of_ofFunction h with ⟨entries, rfl, hentries⟩ | ⟨n, rfl⟩ | ⟨n, rfl⟩
  · -- a check has been made of every column to order by
    refine .order fun e he => ?_
    rcases hentries e he with ⟨spec, hspec, hcheck⟩
    rw [Column.check] at hcheck
    split at hcheck
    · rename_i hcolumn
      rw [hspec] at hcolumn ⊢
      exact Column.named_of_isColumn hP hcolumn
    · cases hcheck
  · exact .limit n
  · exact .offset n

/-- An entry lists declared names without points if the documents in its value do. -/
theorem entryGives_lists (hP : ∀ (m : Model s) (name : String), m.hasColumn name = true →
    '.' ∉ name.toList → P name) : EntryGives (s := s) fun _ c => c.Lists P := by
  intro model text value readers c hreaders h
  rw [ofEntry_eq] at h
  split at h
  · cases h
  · rename_i key _
    split at h
    · cases h
    · have hcolumns : ∀ c ∈ key.columns.map (Column.ofText model), c.isColumn = true →
          P (c.name.getD "") := by
        intro c hc
        rcases List.mem_map.1 hc with ⟨spec, _, rfl⟩
        exact Column.named_of_isColumn hP
      -- the five tests list nothing, the two joins what their documents list, and the rest their
      -- columns
      unfold ofRule at h
      split at h
      · simp only [ofComparison, bind_eq_ok_iff, pure_eq_ok_iff] at h
        rcases h with ⟨_, _, _, _, _, _, rfl⟩
        exact .comparison _ _ _ _
      · simp only [ofPresence, bind_eq_ok_iff, pure_eq_ok_iff] at h
        rcases h with ⟨_, _, rfl⟩
        exact .presence _ _ _
      · simp only [ofMembership, bind_eq_ok_iff, pure_eq_ok_iff] at h
        rcases h with ⟨_, _, _, _, _, _, rfl⟩
        exact .membership _ _ _ _
      · simp only [ofRange, bind_eq_ok_iff] at h
        rcases h with ⟨_, _, h⟩
        split at h
        · simp only [bind_eq_ok_iff, pure_eq_ok_iff] at h
          rcases h with ⟨_, _, _, _, rfl⟩
          exact .range _ _ _ _ _
        · cases h
      · simp only [ofOverlap, bind_eq_ok_iff] at h
        rcases h with ⟨_, _, h⟩
        split at h
        · cases h
        · simp only [bind_eq_ok_iff, pure_eq_ok_iff] at h
          rcases h with ⟨_, _, rfl⟩
          exact .overlap _ _ _ _
      · exact nests_lists.ofRelationJoin hreaders h
      · exact nests_lists.ofDerivedJoin hreaders h
      · exact lists_of_ofSelect hreaders hcolumns h
      · exact lists_of_ofFunction hP h

/-- A document lists declared names without points. -/
theorem lists_of_ofDocument (hP : ∀ (m : Model s) (name : String), m.hasColumn name = true →
    '.' ∉ name.toList → P name) {query : Json} {conditions : List (Condition s)}
    (h : ofDocument query m = .ok conditions) : ∀ c ∈ conditions, c.Lists P :=
  ofDocument_gives (entryGives_lists hP) query m conditions h

end Condition

end DocQuery
