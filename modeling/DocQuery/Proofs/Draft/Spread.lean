import DocQuery.Draft.Basic

namespace DocQuery

/-! # What is joined below a table

Building at a table joins tables below it and no others. `Spreads` says so, and which relations come
in right below the table.

* `Spreads.of_inner`: what is joined below an inner table brings in nothing right below the outer
  one.
-/

/-- The path goes on where `table` ends. -/
def TablePath.IsBelow (path table : TablePath) : Prop :=
  ∃ steps, steps ≠ [] ∧ path.steps = table.steps ++ steps

namespace TablePath

theorem isBelow_child (table : TablePath) (step : PathStep) : (table.child step).IsBelow table :=
  ⟨[step], by simp, rfl⟩

theorem IsBelow.trans {p q r : TablePath} (h : p.IsBelow q) (h' : q.IsBelow r) : p.IsBelow r := by
  rcases h with ⟨steps, hsteps, hp⟩
  rcases h' with ⟨steps', _, hq⟩
  refine ⟨steps' ++ steps, by simp [hsteps], ?_⟩
  rw [hp, hq, List.append_assoc]

theorem IsBelow.length_lt {p q : TablePath} (h : p.IsBelow q) :
    q.steps.length < p.steps.length := by
  rcases h with ⟨steps, hsteps, hp⟩
  have hpos : 0 < steps.length := List.length_pos_iff.2 hsteps
  rw [hp, List.length_append]
  omega

/-- What is below a path below the table is no child of the table. -/
theorem not_isBelow_of_child {table lower : TablePath} {step : PathStep} (h : lower.IsBelow table) :
    ¬(table.child step).IsBelow lower := by
  intro hchild
  have hlower := h.length_lt
  have hlt := hchild.length_lt
  simp only [child, List.length_append, List.length_singleton] at hlt
  omega

theorem not_isBelow_self (table : TablePath) : ¬table.IsBelow table :=
  fun h => Nat.lt_irrefl _ h.length_lt

end TablePath

namespace Draft

variable {s : Schema} {d e f : Draft s} {table inner : TablePath} {names names' : List String}

/-- Tables are joined only below `table`, and the relations that come in right below it are `names`. -/
structure Spreads (table : TablePath) (names : List String) (d e : Draft s) : Prop where
  keeps : ∀ path ∈ d.joined, path ∈ e.joined
  below : ∀ path ∈ e.joined, path ∈ d.joined ∨ path.IsBelow table
  relations : ∀ name, table.child (.relation name) ∈ e.joined ↔
    table.child (.relation name) ∈ d.joined ∨ name ∈ names

namespace Spreads

/-- A step that joins nothing. -/
theorem of_joined_eq (table : TablePath) (h : e.joined = d.joined) : Spreads table [] d e where
  keeps := by
    intro path hpath
    rw [h]
    exact hpath
  below := by
    intro path hpath
    rw [h] at hpath
    exact .inl hpath
  relations := by simp [h]

theorem refl (table : TablePath) (d : Draft s) : Spreads table [] d d := of_joined_eq table rfl

theorem trans (h : Spreads table names d e) (h' : Spreads table names' e f) :
    Spreads table (names ++ names') d f where
  keeps := by
    intro path hpath
    exact h'.keeps path (h.keeps path hpath)
  below := by
    intro path hpath
    rcases h'.below path hpath with hpath | hpath
    · exact h.below path hpath
    · exact .inr hpath
  relations := by
    -- a relation right below the table came in with the first step or with the second
    intro name
    rw [h'.relations, h.relations, List.mem_append, or_assoc]

theorem congr (h : Spreads table names d e) (hnames : ∀ name, name ∈ names ↔ name ∈ names') :
    Spreads table names' d e where
  keeps := h.keeps
  below := h.below
  relations := by
    intro name
    rw [h.relations, hnames]

/-- What spreads below a lower table leaves out the tables that are not below that one. -/
theorem mem_of_not_isBelow (h : Spreads table names d e) {path : TablePath}
    (hpath : ¬path.IsBelow table) (hmem : path ∈ e.joined) : path ∈ d.joined := by
  rcases h.below path hmem with hold | hnew
  · exact hold
  · exact absurd hnew hpath

/-- What spreads below a lower table brings in nothing right below this one. -/
theorem of_inner (h : Spreads inner names d e) (hinner : inner.IsBelow table) :
    Spreads table [] d e where
  keeps := h.keeps
  below := by
    intro path hpath
    rcases h.below path hpath with hold | hnew
    · exact .inl hold
    · exact .inr (hnew.trans hinner)
  relations := by
    intro name
    rw [List.mem_nil_iff, or_false]
    constructor
    · -- a child of the table is not below `inner`, so it was joined before
      exact h.mem_of_not_isBelow (TablePath.not_isBelow_of_child hinner)
    · exact h.keeps _

end Spreads

end Draft

end DocQuery
