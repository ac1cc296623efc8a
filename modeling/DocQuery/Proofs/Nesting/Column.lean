import DocQuery.Proofs.Document.Rules
import DocQuery.Proofs.Nesting.Key

namespace DocQuery

/-! # Columns below a path

A column behind an open path is the column that is read from the model at the end of the path.
Whatever holds of the one holds of the other, and a column that can be reached behind a path opens
the path.

* `leadsToColumn_under_iff`: what holds of a column behind an open path holds of it at the end of
  the path.
* `leadsToRows_ofSegments_iff`: the rows that segments lead to are those at the end of their path.
-/

variable {s : Schema} {m n k : Model s} {path rest : List String} {c : Column s}

/-! ## Paths one after the other -/

/-- A path leads to one model. -/
theorem OpenPath.unique {n' : Model s} (h : OpenPath m path n) (h' : OpenPath m path n') : n = n' :=
  Option.some.inj (h.walk_eq.symm.trans h'.walk_eq)

/-- An open path can be prolonged by one that is open at its end. -/
theorem OpenPath.append (h : OpenPath m path n) (hrest : OpenPath n rest k) :
    OpenPath m (path ++ rest) k := by
  induction h with
  | here m => exact hrest
  | step shown found _ ih => exact .step shown found (ih hrest)

/-- An open path opens its front. -/
theorem OpenPath.of_append (h : OpenPath m (path ++ rest) k) :
    ∃ n, OpenPath m path n ∧ OpenPath n rest k := by
  induction path generalizing m with
  | nil => exact ⟨m, .here m, h⟩
  | cons name path ih =>
    cases h with
    | step shown found hrest =>
      rcases ih hrest with ⟨n, hpath, hend⟩
      exact ⟨n, .step shown found hpath, hend⟩

/-- Behind an open path, what is open is what is open from its end. -/
theorem openPath_append_iff (hopen : OpenPath m path n) :
    OpenPath m (path ++ rest) k ↔ OpenPath n rest k := by
  constructor
  · intro h
    rcases h.of_append with ⟨n', hpath, hrest⟩
    exact hopen.unique hpath ▸ hrest
  · exact hopen.append

/-- A path is walked in two parts. -/
theorem OpenPath.walk_append (h : OpenPath m path n) (rest : List String) :
    Column.walk m (path ++ rest) = Column.walk n rest := by
  induction h with
  | here m => rfl
  | step shown found _ ih =>
    rw [List.cons_append, Column.walk, found]
    exact ih

/-- A path to a relation's target ends with the relation. -/
theorem OpenPath.snoc {name : String} {r : Relation s} (h : OpenPath m path n)
    (shown : name ∉ n.definition.hidden) (found : n.relation? name = some r) :
    OpenPath m (path ++ [name]) r.target :=
  h.append (.step shown found (.here r.target))

namespace Column

/-! ## Written columns -/

/-- A column written below a path has the segments of both. -/
theorem segmentsOf_below (path spec : String) :
    segmentsOf (Key.below path spec) = segmentsOf path ++ segmentsOf spec := by
  have htext : (Key.below path spec).toList = path.toList ++ '.' :: spec.toList := by
    simp [Key.below]
  unfold segmentsOf
  rw [htext, List.splitOnP_append_cons _ _ (by decide), List.map_append, List.filter_append]

/-- The column behind a path from a model. -/
def under (m : Model s) (path : List String) (c : Column s) : Column s :=
  ⟨m, path ++ c.path, c.name⟩

/-- A column written below a path is the column behind the path. -/
theorem ofText_below {spec : String} (hspec : segmentsOf spec ≠ []) (m n : Model s) (path : String) :
    ofText m (Key.below path spec) = (ofText n spec).under m (segmentsOf path) := by
  rcases Option.ne_none_iff_exists'.1 (mt List.getLast?_eq_none_iff.1 hspec) with ⟨name, hname⟩
  simp only [ofText, under, segmentsOf_below, List.dropLast_append_of_ne_nil hspec,
    List.getLast?_append, hname, Option.some_or]

/-- A column behind a path is read where the path starts. -/
theorem under_readOn (m : Model s) (path : List String) {name : String} (hname : c.name = some name) :
    (c.under m path).ReadOn m := by
  refine ⟨rfl, fun hnone => ?_⟩
  rw [under, hname] at hnone
  cases hnone

/-- A column other than `self` has a name. -/
theorem exists_name {spec : String} (hspec : segmentsOf spec ≠ []) (m : Model s) :
    ∃ name, (ofText m spec).name = some name :=
  Option.ne_none_iff_exists'.1 (mt List.getLast?_eq_none_iff.1 hspec)

/-! ## Reached columns -/

/-- Behind an open path a column is reached as it is from the end of the path. -/
theorem leadsToColumn_under_iff (hopen : OpenPath m path n) (hc : c.model = n) :
    (c.under m path).LeadsToColumn m ↔ c.LeadsToColumn n := by
  constructor
  · rintro ⟨_, k, name, hpath, hname, hshown⟩
    exact ⟨hc, k, name, (openPath_append_iff hopen).1 hpath, hname, hshown⟩
  · rintro ⟨_, k, name, hpath, hname, hshown⟩
    exact ⟨rfl, k, name, hopen.append hpath, hname, hshown⟩

/-- So is a relation. -/
theorem leadsToRelation_under_iff {r : Relation s} (hopen : OpenPath m path n) (hc : c.model = n) :
    (c.under m path).LeadsToRelation m r ↔ c.LeadsToRelation n r := by
  constructor
  · rintro ⟨_, k, name, hpath, hname, hshown⟩
    exact ⟨hc, k, name, (openPath_append_iff hopen).1 hpath, hname, hshown⟩
  · rintro ⟨_, k, name, hpath, hname, hshown⟩
    exact ⟨rfl, k, name, hopen.append hpath, hname, hshown⟩

/-- A column with a name is followed to rows as a relation. -/
theorem leadsToRows_iff_of_name {target : Model s} {name : String} (hname : c.name = some name) :
    c.LeadsToRows m target ↔ ∃ r, c.LeadsToRelation m r ∧ r.target = target := by
  constructor
  · rintro (⟨⟨_, _, hself⟩, _⟩ | h)
    · rw [hname] at hself
      cases hself
    · exact h
  · exact .inr

/-- So are the rows of a relation. -/
theorem leadsToRows_under_iff {target : Model s} {name : String} (hopen : OpenPath m path n)
    (hc : c.model = n) (hname : c.name = some name) :
    (c.under m path).LeadsToRows m target ↔ c.LeadsToRows n target := by
  rw [leadsToRows_iff_of_name hname, leadsToRows_iff_of_name (c := c.under m path) hname]
  simp only [leadsToRelation_under_iff hopen hc]

/-- A column that is reached behind a path opens the path. -/
theorem LeadsToColumn.openPath (h : (c.under m path).LeadsToColumn m) : ∃ n, OpenPath m path n := by
  rcases h with ⟨_, k, name, hpath, _⟩
  rcases hpath.of_append with ⟨n, hopen, _⟩
  exact ⟨n, hopen⟩

/-- Rows that are reached behind a path open the path. -/
theorem LeadsToRows.openPath {target : Model s} {name : String} (hname : c.name = some name)
    (h : (c.under m path).LeadsToRows m target) : ∃ n, OpenPath m path n := by
  rcases (leadsToRows_iff_of_name (c := c.under m path) hname).1 h with
      ⟨_, ⟨_, k, _, hpath, _⟩, _⟩
  rcases hpath.of_append with ⟨n, hopen, _⟩
  exact ⟨n, hopen⟩

/-- Behind an open path a column stands for the same definition. -/
theorem terminal?_under (hopen : OpenPath m path n) (hc : c.model = n) :
    (c.under m path).terminal? = c.terminal? := by
  rw [terminal?, under, hopen.walk_append, terminal?, hc]

/-- So it is as chronological as before. -/
theorem isChronological_under (hopen : OpenPath m path n) (hc : c.model = n) :
    (c.under m path).isChronological = c.isChronological := by
  unfold isChronological
  rw [terminal?_under hopen hc]
  rfl

/-! ## Paths to rows -/

/-- The path as a column, which is followed to the rows at its end. -/
def ofSegments (m : Model s) (segments : List String) : Column s :=
  ⟨m, segments.dropLast, segments.getLast?⟩

/-- The column of a list of segments has these segments. -/
theorem segments_ofSegments (m : Model s) (segments : List String) :
    (ofSegments m segments).segments = segments := by
  unfold ofSegments Column.segments
  cases hlast : segments.getLast? with
  | none => simp [List.getLast?_eq_none_iff.1 hlast]
  | some name => simpa using List.dropLast_append_getLast? name hlast

theorem ofSegments_readOn (m : Model s) (segments : List String) : (ofSegments m segments).ReadOn m := by
  refine ⟨rfl, fun hname => ?_⟩
  rw [ofSegments, List.getLast?_eq_none_iff] at hname
  simp only [ofSegments, hname, List.dropLast_nil]

/-- A column that is followed to rows opens the path of all its segments. -/
theorem LeadsToRows.openPath_segments (h : c.LeadsToRows m n) : OpenPath m c.segments n := by
  rcases h with ⟨⟨rfl, hpath, hname⟩, rfl⟩ | ⟨r, ⟨rfl, k, name, hopen, hname, hshown, hfound⟩, rfl⟩
  · have hsegments : c.segments = [] := by
      simp [segments, hpath, hname]
    rw [hsegments]
    exact .here c.model
  · have hsegments : c.segments = c.path ++ [name] := by
      simp [segments, hname]
    rw [hsegments]
    exact hopen.snoc hshown hfound

/-- The rows that a path leads to are those of the model at its end. -/
theorem leadsToRows_ofSegments_iff {segments : List String} :
    (ofSegments m segments).LeadsToRows m n ↔ OpenPath m segments n := by
  constructor
  · intro h
    have hopen := h.openPath_segments
    rw [segments_ofSegments] at hopen
    exact hopen
  · intro h
    -- no segment at all is the table itself; otherwise the last one names the relation
    rcases List.eq_nil_or_concat segments with rfl | ⟨front, name, rfl⟩
    · cases h
      exact .inl ⟨⟨rfl, rfl, rfl⟩, rfl⟩
    · have hcolumn : ofSegments m (front ++ [name]) = ⟨m, front, some name⟩ := by
        simp [ofSegments]
      rw [List.concat_eq_append] at h ⊢
      rw [hcolumn, leadsToRows_iff_of_name rfl]
      rcases h.of_append with ⟨k, hfront, hlast⟩
      cases hlast with
      | @step _ _ _ _ r shown found hend =>
        cases hend
        exact ⟨r, ⟨rfl, k, name, hfront, rfl, shown, found⟩, rfl⟩

end Column

end DocQuery
