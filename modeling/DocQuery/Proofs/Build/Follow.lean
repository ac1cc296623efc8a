import DocQuery.Proofs.Build.Conditions
import Mathlib.Data.List.Induction

namespace DocQuery

/-! # Following paths

To reach a column or the rows of a relation is to join the relations of a path one below the other.
Following a path is following its front and then the rest, and where the end of a path is joined
there is nothing left to follow.

* `runs_joinColumn_iff`: reaching a column is following its path.
* `runs_joinRelation_iff`: reaching the rows of a relation is following all of its segments.
-/

open Build

variable {s : Schema} {m n k : Model s} {path rest walked : List String}

namespace Column

/-- All hops of an open path are there. -/
theorem hopsFrom_of_openPath (hopen : OpenPath m path n) (walked : List String) :
    (hopsFrom m walked path).2 = none := by
  induction hopen generalizing walked with
  | here m => rfl
  | step shown found _ ih =>
    simp only [hopsFrom, found]
    exact ih _

theorem hopsFrom_append (hopen : OpenPath m path n) (walked rest : List String) :
    (hopsFrom m walked (path ++ rest)).1 =
      (hopsFrom m walked path).1 ++ (hopsFrom n (walked ++ path) rest).1 := by
  induction hopen generalizing walked with
  | here m => simp [hopsFrom]
  | @step m n name path r shown found _ ih =>
    simp only [List.cons_append, hopsFrom, found]
    rw [ih, List.append_assoc, List.singleton_append]

end Column

namespace Draft

variable {d e : Draft s} {table : TablePath}

/-- Joins the relations of a path from a model, below the table at `table`. -/
def followPath (table : TablePath) (m : Model s) (path : List String) : Build s Unit :=
  joinHops table (Column.hopsFrom m [] path).1

theorem runs_joinHops_append {hops hops' : List (Hop s)} {u : Unit} :
    (joinHops table (hops ++ hops')).Runs d u e ↔
      ∃ d₁, (joinHops table hops).Runs d () d₁ ∧ (joinHops table hops').Runs d₁ u e := by
  induction hops generalizing d with
  | nil => simp [joinHops]
  | cons hop hops ih =>
    simp only [List.cons_append, joinHops, runs_bind, ih]
    constructor
    · rintro ⟨_, d₁, hjoin, d₂, hhops, hrest⟩
      exact ⟨d₂, ⟨(), d₁, hjoin, hhops⟩, hrest⟩
    · rintro ⟨d₂, ⟨_, d₁, hjoin, hhops⟩, hrest⟩
      exact ⟨(), d₁, hjoin, d₂, hhops, hrest⟩

/-- Hops are joined below the end of a path as they are behind the path. -/
theorem joinHops_join (table : TablePath) (path walked rest : List String) (n : Model s) :
    joinHops (table.join path) (Column.hopsFrom n walked rest).1 =
      joinHops table (Column.hopsFrom n (path ++ walked) rest).1 := by
  induction rest generalizing n walked with
  | nil => rfl
  | cons name rest ih =>
    unfold Column.hopsFrom
    cases n.relation? name with
    | none => rfl
    | some r =>
      simp only [joinHops]
      rw [ih, ← TablePath.join_append, List.append_assoc]

/-- A path is followed by following its front and then the rest. -/
theorem runs_followPath_append (hopen : OpenPath m path n) {u : Unit} :
    (followPath table m (path ++ rest)).Runs d u e ↔ ∃ d₁, (followPath table m path).Runs d () d₁ ∧
      (followPath (table.join path) n rest).Runs d₁ u e := by
  unfold followPath
  rw [Column.hopsFrom_append hopen, runs_joinHops_append, joinHops_join, List.nil_append,
    List.append_nil]

theorem runs_followPath_singleton {r : Relation s} {name : String} (hfound : m.relation? name = some r)
    {u : Unit} : (followPath table m [name]).Runs d u e ↔
      (join r (table.child (.relation name))).Runs d u e := by
  simp only [followPath, Column.hopsFrom, hfound, joinHops, List.nil_append, TablePath.join_singleton,
    runs_bind, runs_pure]
  constructor
  · rintro ⟨_, _, hjoin, _, rfl⟩
    exact hjoin
  · intro hjoin
    exact ⟨_, e, hjoin, trivial, rfl⟩

/-! ## What is joined already -/

theorem runs_unless_joined {path : TablePath} (hmem : path ∈ d.joined) {step : Build s Unit}
    {u : Unit} : Build.Runs (do
      if (← get).isJoined path then return
      step) d u e ↔ d = e := by
  have hjoined : d.isJoined path = true := decide_eq_true hmem
  simp only [runs_bind, runs_get]
  constructor
  · rintro ⟨_, _, ⟨rfl, rfl⟩, hrun⟩
    rw [if_pos hjoined, runs_pure] at hrun
    exact hrun.2
  · rintro rfl
    refine ⟨d, d, ⟨rfl, rfl⟩, ?_⟩
    rw [if_pos hjoined, runs_pure]
    exact ⟨rfl, rfl⟩

theorem runs_join_joined {r : Relation s} {path : TablePath} (hmem : path ∈ d.joined) {u : Unit} :
    (join r path).Runs d u e ↔ d = e := by
  cases r with
  | direct name owner definition link target =>
    unfold join
    exact runs_unless_joined hmem
  | through name owner definition first second =>
    unfold join
    exact runs_unless_joined hmem

/-- Where a path is joined, so is its front. -/
theorem Tidy.front_joined (h : d.Tidy) (path rest : List String)
    (hmem : table.join (path ++ rest) ∈ d.joined) : table.join path ∈ d.joined := by
  induction rest using List.reverseRecOn with
  | nil =>
    rw [List.append_nil] at hmem
    exact hmem
  | append_singleton rest name ih =>
    rw [← List.append_assoc, TablePath.join_append, TablePath.join_singleton] at hmem
    rcases h.reached _ _ hmem with ⟨_, _, hparent, _⟩
    exact ih hparent

theorem Tidy.runs_joinHops_joined (h : d.Tidy) (hmem : table.join (walked ++ path) ∈ d.joined)
    {u : Unit} : (joinHops table (Column.hopsFrom m walked path).1).Runs d u e ↔ d = e := by
  induction path generalizing m walked with
  | nil => simp [Column.hopsFrom, joinHops]
  | cons name path ih =>
    unfold Column.hopsFrom
    cases m.relation? name with
    | none => simp [joinHops]
    | some r =>
      -- where the end is joined, so is every table on the way
      have hrest : table.join ((walked ++ [name]) ++ path) ∈ d.joined := by simpa using hmem
      simp only [joinHops, runs_bind]
      constructor
      · rintro ⟨_, d₁, hjoin, hhops⟩
        have hsame := (runs_join_joined (h.front_joined _ _ hrest)).1 hjoin
        subst hsame
        exact (ih hrest).1 hhops
      · rintro rfl
        exact ⟨(), d, (runs_join_joined (h.front_joined _ _ hrest)).2 rfl, (ih hrest).2 rfl⟩

/-- Where the end of a path is joined, there is nothing to follow. -/
theorem Tidy.runs_followPath_joined (h : d.Tidy) (hmem : table.join path ∈ d.joined) {u : Unit} :
    (followPath table m path).Runs d u e ↔ d = e := by
  have hmem' : table.join ([] ++ path) ∈ d.joined := hmem
  exact h.runs_joinHops_joined hmem'

/-- At the end of an open path, conditions on its model can be built. -/
theorem Ready.follow (h : d.Ready table m) (hopen : OpenPath m path n) {u : Unit}
    (hrun : (followPath table m path).Runs d u e) : e.Ready (table.join path) n ∧ Grows [] d e := by
  have hmem : table.join [] ∈ d.joined := by
    rw [TablePath.join_nil]
    exact h.mem
  have htyped : d.modelAt? (table.join []) = some m := by
    rw [TablePath.join_nil]
    exact h.typed
  rcases h.tidy.runs_joinHops hopen hmem htyped hrun with ⟨_, hfollow⟩
  rw [TablePath.join_nil] at hfollow
  exact ⟨⟨hfollow.joins.tidy h.tidy, hfollow.mem, hfollow.typed⟩, hfollow.joins.grows⟩

/-! ## Columns and relations -/

/-- Joining the way to a column is following its path. -/
theorem runs_joinColumn_iff {c : Column s} (hmodel : c.model = m) (hopen : OpenPath m c.path n)
    {reached : TablePath} : (joinColumn table c).Runs d reached e ↔
      reached = table.join c.path ∧ (followPath table m c.path).Runs d () e := by
  subst hmodel
  have hnone := Column.hopsFrom_of_openPath hopen []
  unfold joinColumn followPath Column.hops
  generalize Column.hopsFrom c.model [] c.path = hops at hnone ⊢
  -- an open path has no hop that is in error
  rcases hops with ⟨hops, error⟩
  cases hnone
  simp only [runs_bind, runs_pure]
  constructor
  · rintro ⟨_, _, hhops, rfl, rfl⟩
    exact ⟨rfl, hhops⟩
  · rintro ⟨rfl, hhops⟩
    exact ⟨(), e, hhops, rfl, rfl⟩

end Draft

namespace Condition

open Draft

variable {d e : Draft s} {table : TablePath}

/-- Following a column to rows is following its segments. -/
theorem runs_joinRelation_iff {c : Column s} (hrows : c.LeadsToRows m n) {reached : TablePath} :
    (joinRelation table c).Runs d reached e ↔
      reached = table.join c.segments ∧ (followPath table m c.segments).Runs d () e := by
  unfold joinRelation
  rw [runs_bind]
  -- the rows of a path alone, or those of a last relation, which is joined after the path
  rcases hrows with ⟨⟨rfl, hpath, hname⟩, rfl⟩ | ⟨r, hr, rfl⟩
  · have hopen : OpenPath c.model c.path c.model := hpath ▸ .here c.model
    have hsegments : c.segments = c.path := by
      simp [Column.segments, hname]
    simp only [runs_joinColumn_iff rfl hopen, hname, runs_pure, hsegments]
    constructor
    · rintro ⟨_, _, ⟨rfl, hfollow⟩, rfl, rfl⟩
      exact ⟨rfl, hfollow⟩
    · rintro ⟨rfl, hfollow⟩
      exact ⟨_, _, ⟨rfl, hfollow⟩, rfl, rfl⟩
  · have hrelation := hr.relation?_eq
    rcases hr with ⟨rfl, k, name, hopen, hname, _, hfound⟩
    have hsegments : c.segments = c.path ++ [name] := by
      simp [Column.segments, hname]
    simp only [runs_joinColumn_iff rfl hopen, hname, hrelation, runs_bind, runs_pure, hsegments,
      runs_followPath_append hopen, runs_followPath_singleton hfound, TablePath.join_append,
      TablePath.join_singleton]
    constructor
    · rintro ⟨_, d₁, ⟨rfl, hfollow⟩, _, _, hjoin, rfl, rfl⟩
      exact ⟨rfl, d₁, hfollow, hjoin⟩
    · rintro ⟨rfl, d₁, hfollow, hjoin⟩
      exact ⟨_, d₁, ⟨rfl, hfollow⟩, _, _, hjoin, rfl, rfl⟩

end Condition

end DocQuery
