import DocQuery.Proofs.Build.Follow
import DocQuery.Proofs.Nesting.Entry

namespace DocQuery

/-! # Building below a path

A condition on columns behind a path follows the path before anything else, and from then on it is
built as the condition on the columns is at the end of the path. A join does the same: it follows
its path and builds its document there.

* `runs_buildEach_under_iff`: conditions below a path follow the path first and are then built at
  its end.
* `runs_build_join_iff`: so is a join: it follows its path and builds its document there.
-/

open Build Draft

variable {s : Schema}

namespace Condition

variable {m n : Model s} {path : List String} {table : TablePath} {d e : Draft s} {c : Condition s}

/-! ## At the end of the path -/

/-- What is known of a condition that is about columns: there are some, and each has a name. -/
inductive AboutColumns : Condition s → Prop where
  | comparison {rule template : String} {columns : List (Column s)} {values : List Operand}
      (some : columns ≠ []) : AboutColumns (.comparison rule template columns values)
  | presence {rule template : String} {columns : List (Column s)} (some : columns ≠ []) :
      AboutColumns (.presence rule template columns)
  | membership {rule template : String} {columns : List (Column s)} {values : Operand}
      (some : columns ≠ []) : AboutColumns (.membership rule template columns values)
  | range {rule template : String} {columns : List (Column s)} {low high : Operand}
      (some : columns ≠ []) : AboutColumns (.range rule template columns low high)
  | overlap {rule template : String} {columns : List (Column s)} {span : TimeSpan}
      (some : columns ≠ []) : AboutColumns (.overlap rule template columns span)
  | relationJoin {targets : List (Target s (List (List (Condition s))))} (some : targets ≠ [])
      (named : ∀ t ∈ targets, ∃ name, t.column.name = Option.some name) :
      AboutColumns (.relationJoin targets)

theorem runs_joinColumn_under_iff (hopen : OpenPath m path n) {c : Column s} (hc : c.LeadsToColumn n)
    {reached : TablePath} : (joinColumn table (c.under m path)).Runs d reached e ↔
      ∃ d₁, (followPath table m path).Runs d () d₁ ∧
        (joinColumn (table.join path) c).Runs d₁ reached e := by
  rcases hc with ⟨hmodel, k, name, hcolumn, _⟩
  have hunder : OpenPath m (c.under m path).path k := hopen.append hcolumn
  rw [runs_joinColumn_iff rfl hunder]
  simp only [runs_joinColumn_iff hmodel hcolumn]
  -- the path of the column below the path is followed in two parts
  rw [Column.under, runs_followPath_append hopen, TablePath.join_append]
  constructor
  · rintro ⟨rfl, d₁, hpath, hrest⟩
    exact ⟨d₁, hpath, rfl, hrest⟩
  · rintro ⟨d₁, hpath, rfl, hrest⟩
    exact ⟨rfl, d₁, hpath, hrest⟩

/-- Where the end of the path is joined, a column behind it is joined as the column is there. -/
theorem runs_joinColumn_under_joined (hopen : OpenPath m path n) (h : d.Ready (table.join path) n)
    {c : Column s} (hc : c.LeadsToColumn n) {reached : TablePath} :
    (joinColumn table (c.under m path)).Runs d reached e ↔
      (joinColumn (table.join path) c).Runs d reached e := by
  simp only [runs_joinColumn_under_iff hopen hc, h.tidy.runs_followPath_joined h.mem,
    exists_eq_left']

theorem runs_joinColumns_under_joined (hopen : OpenPath m path n) (h : d.Ready (table.join path) n)
    {columns : List (Column s)} (hreached : ∀ c ∈ columns, c.LeadsToColumn n)
    {qualified : List QualifiedColumn} :
    (joinColumns table (columns.map (Column.under m path))).Runs d qualified e ↔
      (joinColumns (table.join path) columns).Runs d qualified e := by
  induction columns generalizing d e qualified with
  | nil => rfl
  | cons c columns ih =>
    have hc := hreached c List.mem_cons_self
    simp only [List.map_cons, joinColumns, runs_bind, runs_joinColumn_under_joined hopen h hc]
    refine exists_congr fun reached => exists_congr fun d₁ => and_congr_right fun hcolumn => ?_
    refine exists_congr fun q => exists_congr fun d₂ => and_congr_right fun hqualify => ?_
    -- joining one column leaves the draft ready for the next
    have hready : d₂.Ready (table.join path) n := by
      have hone : (joinColumns (table.join path) [c]).Runs d [q] d₂ := by
        simp only [joinColumns, runs_bind, runs_pure]
        exact ⟨reached, d₁, hcolumn, q, d₂, hqualify, [], d₂, ⟨rfl, rfl⟩, rfl, rfl⟩
      have hreached' : ∀ c' ∈ [c], c'.LeadsToColumn n := fun c' hc' =>
        List.mem_singleton.1 hc' ▸ hc
      exact h.grow (builds_joinColumns h hreached' hone).grows
    simp only [ih hready fun c' hc' => hreached c' (List.mem_cons_of_mem _ hc')]

theorem runs_joinRelation_under_iff (hopen : OpenPath m path n) {k : Model s} {c : Column s}
    (hrows : c.LeadsToRows n k) (hname : ∃ name, c.name = some name) {reached : TablePath} :
    (joinRelation table (c.under m path)).Runs d reached e ↔
      ∃ d₁, (followPath table m path).Runs d () d₁ ∧
        (joinRelation (table.join path) c).Runs d₁ reached e := by
  rcases hname with ⟨name, hname⟩
  have hmodel : c.model = n := by
    rcases (Column.leadsToRows_iff_of_name hname).1 hrows with ⟨_, ⟨hmodel, _⟩, _⟩
    exact hmodel
  have hunder := (Column.leadsToRows_under_iff hopen hmodel hname).2 hrows
  have hsegments : (c.under m path).segments = path ++ c.segments := by
    simp [Column.segments, Column.under]
  rw [runs_joinRelation_iff hunder]
  simp only [runs_joinRelation_iff hrows]
  rw [hsegments, runs_followPath_append hopen, TablePath.join_append]
  constructor
  · rintro ⟨rfl, d₁, hpath, hrest⟩
    exact ⟨d₁, hpath, rfl, hrest⟩
  · rintro ⟨d₁, hpath, rfl, hrest⟩
    exact ⟨rfl, d₁, hpath, hrest⟩

/-- Where the end of the path is joined, joins behind it are built as they are there. -/
theorem runs_buildJoins_under_joined (hopen : OpenPath m path n) (within : Connective)
    {targets : List (Target s (List (List (Condition s))))}
    (reached : ∀ t ∈ targets, ∃ target, t.column.LeadsToRows n target)
    (nested : ∀ t ∈ targets, ∀ target, t.column.LeadsToRows n target →
      ∀ document ∈ t.nested, ∀ c ∈ document, c.Admitted target)
    (named : ∀ t ∈ targets, ∃ name, t.column.name = some name) (h : d.Ready (table.join path) n)
    {trees : List (Predicate Test)} :
    (buildJoins within (targets.map fun t => ⟨t.column.under m path, t.nested⟩) table).Runs d trees e ↔
      (buildJoins within targets (table.join path)).Runs d trees e := by
  induction targets generalizing d e trees with
  | nil =>
    rw [List.map_nil, buildJoins, buildJoins]
  | cons target targets ih =>
    rcases reached target List.mem_cons_self with ⟨k, hrows⟩
    have hjoined : ∀ p d₁, (joinRelation table (target.column.under m path)).Runs d p d₁ ↔
        (joinRelation (table.join path) target.column).Runs d p d₁ := by
      intro p d₁
      simp only [runs_joinRelation_under_iff hopen hrows (named target List.mem_cons_self),
        h.tidy.runs_followPath_joined h.mem, exists_eq_left']
    rcases target with ⟨column, documents⟩
    have hsame : ∀ tree d₁, (buildJoin within ⟨column.under m path, documents⟩ table).Runs d tree d₁ ↔
        (buildJoin within ⟨column, documents⟩ (table.join path)).Runs d tree d₁ := by
      intro tree d₁
      simp only [buildJoin, runs_bind, hjoined]
    simp only [List.map_cons, buildJoins, runs_bind, hsame]
    refine exists_congr fun tree => exists_congr fun d₁ => and_congr_right fun hfirst => ?_
    -- the first join leaves the end of the path as it is
    have hready : d₁.Ready (table.join path) n := by
      have hone : (buildJoins within [⟨column, documents⟩] (table.join path)).Runs d [tree] d₁ := by
        simp only [buildJoins, runs_bind, runs_pure]
        exact ⟨tree, d₁, hfirst, [], d₁, ⟨rfl, rfl⟩, rfl, rfl⟩
      refine h.grow (buildJoins_builds [⟨column, documents⟩] ?_ ?_ h hone).grows
      · intro t ht
        exact List.mem_singleton.1 ht ▸ ⟨k, hrows⟩
      · intro t ht
        exact nested t (List.mem_singleton.1 ht ▸ List.mem_cons_self)
    simp only [ih (fun t ht => reached t (List.mem_cons_of_mem _ ht))
      (fun t ht => nested t (List.mem_cons_of_mem _ ht))
      (fun t ht => named t (List.mem_cons_of_mem _ ht)) hready]

/-- Where the end of the path is joined, a condition behind it is built as it is there. -/
theorem runs_build_under_joined (hopen : OpenPath m path n) (hc : c.Admitted n)
    (habout : c.AboutColumns) (h : d.Ready (table.join path) n) {t : Option (Predicate Test)} :
    (build (c.under m path) table).Runs d t e ↔ (build c (table.join path)).Runs d t e := by
  cases habout with
  -- how many documents there are decides the connective, and the path does not change it
  | relationJoin ne named =>
    cases hc with
    | relationJoin reached nested =>
      have hcount : ∀ targets : List (Target s (List (List (Condition s)))),
          documentCount (targets.map fun t => ⟨t.column.under m path, t.nested⟩) =
            documentCount targets := by
        intro targets
        cases targets <;> rfl
      simp only [Condition.under, build, runs_bind, hcount,
        runs_buildJoins_under_joined hopen _ reached nested named h]
  | comparison ne =>
    cases hc with
    | comparison reached =>
      simp only [Condition.under, build, runs_bind, runs_joinColumns_under_joined hopen h reached]
  | presence ne =>
    cases hc with
    | presence reached =>
      simp only [Condition.under, build, runs_bind, runs_joinColumns_under_joined hopen h reached]
  | membership ne =>
    cases hc with
    | membership reached =>
      simp only [Condition.under, build, runs_bind, runs_joinColumns_under_joined hopen h reached]
  | range ne =>
    cases hc with
    | range reached =>
      simp only [Condition.under, build, runs_bind, runs_joinColumns_under_joined hopen h reached]
  | overlap ne =>
    cases hc with
    | overlap reached =>
      simp only [Condition.under, build, runs_bind, runs_joinColumns_under_joined hopen h reached]

theorem runs_buildEach_under_joined (hopen : OpenPath m path n) {conditions : List (Condition s)}
    (hc : ∀ c ∈ conditions, c.Admitted n) (habout : ∀ c ∈ conditions, c.AboutColumns)
    (h : d.Ready (table.join path) n) {trees : List (Predicate Test)} :
    (buildEach (conditions.map (Condition.under m path)) table).Runs d trees e ↔
      (buildEach conditions (table.join path)).Runs d trees e := by
  induction conditions generalizing d e trees with
  | nil =>
    rw [List.map_nil, buildEach, buildEach]
  | cons c conditions ih =>
    rcases admitted_of_cons hc with ⟨hfirst, hrest⟩
    simp only [List.map_cons, buildEach, runs_bind,
      runs_build_under_joined hopen hfirst (habout c List.mem_cons_self) h]
    refine exists_congr fun tree => exists_congr fun d₁ => and_congr_right fun hrun => ?_
    have hready := h.grow (build_builds c hfirst h hrun).grows
    simp only [ih hrest (fun c' hc' => habout c' (List.mem_cons_of_mem _ hc')) hready]

/-! ## On the way -/

/-- The step follows the path before anything else. -/
def Approaches {α : Type} (table : TablePath) (m : Model s) (path : List String)
    (step : Build s α) : Prop :=
  ∀ d a e, d.Ready table m → (step.Runs d a e ↔
    ∃ d₁, (followPath table m path).Runs d () d₁ ∧ step.Runs d₁ a e)

theorem Approaches.bind {α β : Type} {step : Build s α} (h : Approaches table m path step)
    (next : α → Build s β) : Approaches table m path (step >>= next) := by
  intro d b e hd
  simp only [runs_bind, h d _ _ hd]
  constructor
  · rintro ⟨a, d₂, ⟨d₁, hfollow, hstep⟩, hnext⟩
    exact ⟨d₁, hfollow, a, d₂, hstep, hnext⟩
  · rintro ⟨d₁, hfollow, a, d₂, hstep, hnext⟩
    exact ⟨a, d₂, ⟨d₁, hfollow, hstep⟩, hnext⟩

theorem approaches_joinColumn (hopen : OpenPath m path n) {c : Column s} (hc : c.LeadsToColumn n) :
    Approaches table m path (joinColumn table (c.under m path)) := by
  intro d p e hd
  rw [runs_joinColumn_under_iff hopen hc]
  refine exists_congr fun d₁ => and_congr_right fun hfollow => ?_
  rw [runs_joinColumn_under_joined hopen (hd.follow hopen hfollow).1 hc]

theorem approaches_joinColumns (hopen : OpenPath m path n) {columns : List (Column s)}
    (hne : columns ≠ []) (hreached : ∀ c ∈ columns, c.LeadsToColumn n) :
    Approaches table m path (joinColumns table (columns.map (Column.under m path))) := by
  rcases List.exists_cons_of_ne_nil hne with ⟨c, rest, rfl⟩
  rw [List.map_cons, joinColumns]
  exact (approaches_joinColumn hopen (hreached c List.mem_cons_self)).bind _

theorem approaches_joinRelation (hopen : OpenPath m path n) {k : Model s} {c : Column s}
    (hrows : c.LeadsToRows n k) (hname : ∃ name, c.name = some name) :
    Approaches table m path (joinRelation table (c.under m path)) := by
  intro d p e hd
  rw [runs_joinRelation_under_iff hopen hrows hname]
  refine exists_congr fun d₁ => and_congr_right fun hfollow => ?_
  have hready := (hd.follow hopen hfollow).1
  simp only [runs_joinRelation_under_iff hopen hrows hname,
    hready.tidy.runs_followPath_joined hready.mem, exists_eq_left']

/-- A condition behind a path follows the path first. -/
theorem approaches_build (hopen : OpenPath m path n) (hc : c.Admitted n) (habout : c.AboutColumns) :
    Approaches table m path (build (c.under m path) table) := by
  cases habout with
  -- the first target follows the path; the others find it joined
  | @relationJoin targets ne named =>
    cases hc with
    | relationJoin reached nested =>
      rcases List.exists_cons_of_ne_nil ne with ⟨⟨column, documents⟩, rest, rfl⟩
      rcases reached _ List.mem_cons_self with ⟨k, hrows⟩
      have hjoin : Approaches table m path (joinRelation table (column.under m path)) :=
        approaches_joinRelation hopen hrows (named _ List.mem_cons_self)
      rw [Condition.under, build, List.map_cons, buildJoins, buildJoin]
      exact ((hjoin.bind _).bind _).bind _
  | comparison ne =>
    cases hc with
    | comparison reached =>
      rw [Condition.under, build]
      exact (approaches_joinColumns hopen ne reached).bind _
  | presence ne =>
    cases hc with
    | presence reached =>
      rw [Condition.under, build]
      exact (approaches_joinColumns hopen ne reached).bind _
  | membership ne =>
    cases hc with
    | membership reached =>
      rw [Condition.under, build]
      exact (approaches_joinColumns hopen ne reached).bind _
  | range ne =>
    cases hc with
    | range reached =>
      rw [Condition.under, build]
      exact (approaches_joinColumns hopen ne reached).bind _
  | overlap ne =>
    cases hc with
    | overlap reached =>
      rw [Condition.under, build]
      exact (approaches_joinColumns hopen ne reached).bind _

/-- Conditions behind a path follow the path, and are built as they are at its end. -/
theorem runs_buildEach_under_iff (hopen : OpenPath m path n) {conditions : List (Condition s)}
    (hne : conditions ≠ []) (hc : ∀ c ∈ conditions, c.Admitted n)
    (habout : ∀ c ∈ conditions, c.AboutColumns) (h : d.Ready table m)
    {trees : List (Predicate Test)} :
    (buildEach (conditions.map (Condition.under m path)) table).Runs d trees e ↔
      ∃ d₁, (followPath table m path).Runs d () d₁ ∧
        (buildEach conditions (table.join path)).Runs d₁ trees e := by
  have happroaches : Approaches table m path
      (buildEach (conditions.map (Condition.under m path)) table) := by
    rcases List.exists_cons_of_ne_nil hne with ⟨c, rest, rfl⟩
    rw [List.map_cons, buildEach]
    exact (approaches_build hopen (hc c List.mem_cons_self) (habout c List.mem_cons_self)).bind _
  rw [happroaches d trees e h]
  refine exists_congr fun d₁ => and_congr_right fun hfollow => ?_
  exact runs_buildEach_under_joined hopen hc habout (h.follow hopen hfollow).1

/-- A join with one document follows its path and builds the document at the end. -/
theorem runs_build_join_iff (hopen : OpenPath m path n) {document : List (Condition s)}
    {t : Option (Predicate Test)} :
    (build (.relationJoin [⟨Column.ofSegments m path, [document]⟩]) table).Runs d t e ↔
      ∃ trees, (∃ d₁, (followPath table m path).Runs d () d₁ ∧
        (buildEach document (table.join path)).Runs d₁ trees e) ∧
        t = some (.any [.all [.all trees]]) := by
  have hrows : (Column.ofSegments m path).LeadsToRows m n := Column.leadsToRows_ofSegments_iff.2 hopen
  simp only [build, buildJoins, buildJoin, buildDocuments, runs_bind, runs_pure,
    runs_joinRelation_iff hrows, Column.segments_ofSegments]
  -- a single target has a single document, so nothing is built besides
  constructor
  · rintro ⟨_, _, ⟨_, _, ⟨_, d₁, ⟨rfl, hfollow⟩, _, _, ⟨trees, _, hdocument, _, _, ⟨rfl, rfl⟩, rfl, rfl⟩,
      rfl, rfl⟩, _, _, ⟨rfl, rfl⟩, rfl, rfl⟩, rfl, rfl⟩
    exact ⟨trees, ⟨d₁, hfollow, hdocument⟩, rfl⟩
  · rintro ⟨trees, ⟨d₁, hfollow, hdocument⟩, rfl⟩
    exact ⟨_, _, ⟨_, _, ⟨_, d₁, ⟨rfl, hfollow⟩, _, _, ⟨trees, _, hdocument, _, _, ⟨rfl, rfl⟩, rfl, rfl⟩,
      rfl, rfl⟩, _, _, ⟨rfl, rfl⟩, rfl, rfl⟩, rfl, rfl⟩

end Condition

end DocQuery
