import DocQuery.Proofs.Build.Join
import DocQuery.Proofs.Document.Access

namespace DocQuery

/-! # Runs that reach columns

A column is reached by joining the relations on the way to it, and a relation's rows by joining the
relation too. What comes in right below the table are the first hops inside the first relation.

* `Tidy.runs_joinColumn`: joining a column joins the relations on the way to it.
* `runs_joinColumns`: so does joining several, which are then found under the aliases of their
  tables.
-/

open Build

variable {s : Schema}

/-- The relations that come in right below a table when a path is followed from it. -/
def Model.entered (m : Model s) (path : List String) : List String :=
  match path.head?.bind m.relation? with
  | some r => r.leads.map Relation.name
  | none => []

namespace TablePath

@[simp] theorem join_nil (table : TablePath) : table.join [] = table := by
  simp [join]

theorem join_append (table : TablePath) (path rest : List String) :
    table.join (path ++ rest) = (table.join path).join rest := by
  simp [join]

theorem join_cons (table : TablePath) (name : String) (path : List String) :
    table.join (name :: path) = (table.child (.relation name)).join path := by
  simp [join, child]

theorem isBelow_join (table : TablePath) {path : List String} (h : path ≠ []) :
    (table.join path).IsBelow table :=
  ⟨path.map PathStep.relation, by simpa using h, rfl⟩

theorem join_singleton (table : TablePath) (name : String) :
    table.join [name] = table.child (.relation name) := rfl

end TablePath

namespace Draft

variable {d e f : Draft s} {table : TablePath} {m n : Model s} {path : List String}

/-- What following a path from the table of a model comes to: its end is a table of `n`. -/
structure JoinsPath (m n : Model s) (table : TablePath) (path : List String) (d e : Draft s) :
    Prop where
  joins : Joins d e
  mem : table.join path ∈ e.joined
  typed : e.modelAt? (table.join path) = some n
  spreads : Spreads table (m.entered path) d e

theorem JoinsPath.nil (hmem : table ∈ d.joined) (htyped : d.modelAt? table = some m) :
    JoinsPath m m table [] d d where
  joins := .refl
  mem := by rwa [TablePath.join_nil]
  typed := by rwa [TablePath.join_nil]
  spreads := Spreads.refl table d

/-- A relation is joined before the rest of the path. -/
theorem JoinsRelation.cons {r : Relation s} (h : JoinsRelation r table d e)
    (hfound : m.relation? r.name = some r)
    (hrest : JoinsPath r.target n (table.child (.relation r.name)) path e f) :
    JoinsPath m n table (r.name :: path) d f where
  joins := h.joins.trans hrest.joins
  mem := by
    rw [TablePath.join_cons]
    exact hrest.mem
  typed := by
    rw [TablePath.join_cons]
    exact hrest.typed
  spreads := by
    -- of the whole path, what is right below the table is what the first relation leads over
    have hentered : m.entered (r.name :: path) = r.leads.map Relation.name := by
      simp [Model.entered, hfound]
    rw [hentered, ← List.append_nil (r.leads.map Relation.name)]
    exact h.spreads.trans (hrest.spreads.of_inner (TablePath.isBelow_child _ _))

/-- Joining the hops of a path follows the path. -/
theorem Tidy.runs_joinHops (h : d.Tidy) (hopen : OpenPath m path n) {walked : List String}
    (hmem : table.join walked ∈ d.joined) (htyped : d.modelAt? (table.join walked) = some m)
    {u : Unit} (hrun : (joinHops table (Column.hopsFrom m walked path).1).Runs d u e) :
    (Column.hopsFrom m walked path).2 = none ∧ JoinsPath m n (table.join walked) path d e := by
  induction hopen generalizing d walked u with
  | here m =>
    simp only [Column.hopsFrom, joinHops, runs_pure] at hrun
    rcases hrun with ⟨_, rfl⟩
    exact ⟨rfl, .nil hmem htyped⟩
  | @step m n name path r shown found rest ih =>
    rcases Model.relation?_resolved found with ⟨hresolved, howner, hname⟩
    subst hname
    simp only [Column.hopsFrom, found, joinHops, runs_bind] at hrun ⊢
    rcases hrun with ⟨_, e', hjoin, hrest⟩
    rw [TablePath.join_append, TablePath.join_singleton] at hjoin
    have hrelation := h.runs_join hresolved hmem (howner ▸ htyped) hjoin
    have hpath : table.join (walked ++ [r.name]) = (table.join walked).child (.relation r.name) := by
      rw [TablePath.join_append, TablePath.join_singleton]
    have hmem' : table.join (walked ++ [r.name]) ∈ e'.joined := by
      rw [hpath]
      exact hrelation.mem
    have htyped' : e'.modelAt? (table.join (walked ++ [r.name])) = some r.target := by
      rw [hpath]
      exact hrelation.typed
    -- the rest of the path is followed from the target of the hop
    rcases ih (hrelation.joins.tidy h) hmem' htyped' hrest with ⟨hnone, hfollow⟩
    rw [hpath] at hfollow
    exact ⟨hnone, hrelation.cons found hfollow⟩

/-- Joining a column's path gives the path of the table that has the column. -/
theorem Tidy.runs_joinColumn (h : d.Tidy) {c : Column s} (hmodel : c.model = m)
    (hopen : OpenPath m c.path n) (hmem : table ∈ d.joined) (htyped : d.modelAt? table = some m)
    {reached : TablePath} (hrun : (joinColumn table c).Runs d reached e) :
    reached = table.join c.path ∧ JoinsPath m n table c.path d e := by
  subst hmodel
  rw [← TablePath.join_nil table] at hmem htyped
  unfold joinColumn Column.hops at hrun
  generalize hhops : Column.hopsFrom c.model [] c.path = hops at hrun
  rcases hops with ⟨hops, error⟩
  simp only [runs_bind] at hrun
  rcases hrun with ⟨_, e', hjoin, hrun⟩
  have hfst : hops = (Column.hopsFrom c.model [] c.path).1 := by rw [hhops]
  rw [hfst] at hjoin
  rcases h.runs_joinHops hopen hmem htyped hjoin with ⟨hnone, hfollow⟩
  -- the path is open, so no hop of it is missing
  rw [hhops] at hnone
  cases hnone
  rw [runs_pure] at hrun
  rcases hrun with ⟨rfl, rfl⟩
  rw [TablePath.join_nil] at hfollow
  exact ⟨rfl, hfollow⟩

/-- A relation is joined at the end of a path. -/
theorem JoinsPath.snoc (h : JoinsPath m n table path d e) (hopen : OpenPath m path n)
    {r : Relation s} (hfound : n.relation? r.name = some r)
    (hrest : JoinsRelation r (table.join path) e f) :
    JoinsPath m r.target table (path ++ [r.name]) d f where
  joins := h.joins.trans hrest.joins
  mem := by
    rw [TablePath.join_append]
    exact hrest.mem
  typed := by
    rw [TablePath.join_append]
    exact hrest.typed
  spreads := by
    cases path with
    | nil =>
      -- the relation is the first hop
      cases hopen
      have hspreads := h.spreads.trans (by simpa using hrest.spreads)
      simpa [Model.entered, hfound] using hspreads
    | cons name path =>
      -- the first hop is on the path, and the relation comes in below it
      have hbelow : (table.join (name :: path)).IsBelow table :=
        TablePath.isBelow_join table (by simp)
      have hspreads := h.spreads.trans (hrest.spreads.of_inner hbelow)
      simpa [Model.entered] using hspreads

end Draft

namespace Condition

open Draft

variable {d e : Draft s} {table : TablePath} {m n : Model s}

/-- Following a column to rows gives the path of their table. -/
theorem runs_joinRelation (h : d.Tidy) {c : Column s} (hrows : c.LeadsToRows m n)
    (hmem : table ∈ d.joined) (htyped : d.modelAt? table = some m) {reached : TablePath}
    (hrun : (joinRelation table c).Runs d reached e) :
    reached = table.join c.segments ∧ JoinsPath m n table c.segments d e := by
  unfold joinRelation at hrun
  rw [runs_bind] at hrun
  rcases hrun with ⟨path, e', hcolumn, hrun⟩
  rcases hrows with ⟨⟨rfl, hpath, hname⟩, rfl⟩ | ⟨r, hr, rfl⟩
  · -- the column stands for the model itself: nothing is joined
    have hopen : OpenPath c.model c.path c.model := hpath ▸ .here c.model
    rcases h.runs_joinColumn rfl hopen hmem htyped hcolumn with ⟨rfl, hfollow⟩
    rw [hname] at hrun
    simp only [runs_pure] at hrun
    rcases hrun with ⟨rfl, rfl⟩
    have hsegments : c.segments = c.path := by
      simp [Column.segments, hname]
    rw [hsegments]
    exact ⟨rfl, hfollow⟩
  · -- the relation that the column names is joined after its path
    have hrelation := hr.relation?_eq
    rcases hr with ⟨rfl, k, name, hopen, hname, _, hfound⟩
    rcases Model.relation?_resolved hfound with ⟨hresolved, howner, rfl⟩
    rcases h.runs_joinColumn rfl hopen hmem htyped hcolumn with ⟨rfl, hfollow⟩
    rw [hname, hrelation] at hrun
    simp only [runs_bind, runs_pure] at hrun
    rcases hrun with ⟨_, _, hjoin, rfl, rfl⟩
    have hjoins := (hfollow.joins.tidy h).runs_join hresolved hfollow.mem
      (howner ▸ hfollow.typed) hjoin
    simp only [Column.segments, hname, Option.toList_some]
    refine ⟨?_, hfollow.snoc hopen hfound hjoins⟩
    rw [TablePath.join_append, TablePath.join_singleton]

end Condition

namespace Draft

/-- The aliases of the draft are those that `names` gives. -/
def NamedBy (d : Draft s) (names : TablePath → String) : Prop :=
  ∀ path a, d.aliasAt? path = some a → names path = a

end Draft

/-- The column as a statement has it, when `names` gives the aliases of tables. -/
def Column.qualify (names : TablePath → String) (table : TablePath) (c : Column s) :
    QualifiedColumn :=
  ⟨names (table.join c.path), c.name.getD ""⟩

namespace Condition

open Draft

/-- What joining the tables of columns comes to. -/
structure JoinsColumns (table : TablePath) (columns : List (Column s)) (d : Draft s)
    (qualified : List QualifiedColumn) (e : Draft s) : Prop where
  joins : Joins d e
  qualified_eq : ∀ names, e.NamedBy names → qualified = columns.map (Column.qualify names table)
  spreads : Spreads table (columns.flatMap fun c => c.model.entered c.path) d e

theorem runs_joinColumns {d e : Draft s} {table : TablePath} {m : Model s} (h : d.Tidy)
    {columns : List (Column s)} (hreached : ∀ c ∈ columns, c.LeadsToColumn m)
    (hmem : table ∈ d.joined) (htyped : d.modelAt? table = some m)
    {qualified : List QualifiedColumn} (hrun : (joinColumns table columns).Runs d qualified e) :
    JoinsColumns table columns d qualified e := by
  induction columns generalizing d qualified with
  | nil =>
    rw [joinColumns, runs_pure] at hrun
    rcases hrun with ⟨rfl, rfl⟩
    exact ⟨.refl, fun _ _ => rfl, .refl table d⟩
  | cons c columns ih =>
    rcases runs_joinColumns_cons_iff.1 hrun with ⟨_, d₁, rest, hcolumn, hrest, rfl⟩
    rcases hreached c List.mem_cons_self with ⟨rfl, n, name, hopen, hname, _⟩
    rcases h.runs_joinColumn rfl hopen hmem htyped hcolumn with ⟨rfl, hfollow⟩
    have htidy := hfollow.joins.tidy h
    rcases htidy.columnAt_joined hfollow.mem (c.name.getD "") with ⟨a, ha, hqualified⟩
    rw [hqualified] at hrest ⊢
    -- later columns keep the alias that qualifies this one
    have hcolumns := ih htidy (fun c' hc' => hreached c' (List.mem_cons_of_mem _ hc'))
      (hfollow.joins.joined_subset hmem) ((hfollow.joins.modelAt?_eq hmem).trans htyped) hrest
    refine ⟨hfollow.joins.trans hcolumns.joins, ?_, hfollow.spreads.trans hcolumns.spreads⟩
    intro names hnames
    rw [List.map_cons, ← hcolumns.qualified_eq names hnames, Column.qualify,
      hnames _ a (hcolumns.joins.aliasAt?_eq ha)]

end Condition

end DocQuery
